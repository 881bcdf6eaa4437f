import Engramia.Billing.Admin
import Engramia.Billing.Committed

/-!
The Stripe customer, the billing portal and the admin plan override. A
billing row outranks the tier an operator put on the tenant, so storing a
customer id can change a plan by creating a row, and an override behind a row
changes nothing. The history keeps the plan each tenant is supposed to be on.
-/
namespace Engramia.Billing

open Engramia.Library

/-- How `StripeClient.create_customer` ends. -/
inductive CustomerCall where
  | created (customerId : String)
  /-- `RuntimeError`: no SDK or no secret key. -/
  | notConfigured
  | stripeError
deriving DecidableEq, Repr

inductive CustomerResult where
  | customerId (id : Option String)
  | stripeError
deriving DecidableEq, Repr

def createStripeCustomer (createCustomer : String → Option String → CustomerCall)
    (fails : Bool) (w : World) (tenantId : String) (email : Option String) :
    World × CustomerResult :=
  match createCustomer tenantId email with
  | .notConfigured => (w, .customerId none)
  | .stripeError => (w, .stripeError)
  | .created cid =>
      ((w.execute fails (.saveStripeCustomer tenantId cid)).getD w, .customerId (some cid))

inductive PortalResult where
  | session (customerId returnUrl : String)
  | notConfigured
  | stripeError
deriving DecidableEq, Repr

/-- `create_portal_url` up to the session request for the customer it names.
The email is what the lookup in `cloud_users` gives. -/
def createPortalUrl (createCustomer : String → Option String → CustomerCall)
    (reads : SubscriptionReads) (fails : Bool) (email : Option String) (w : World)
    (tenantId returnUrl : String) : World × PortalResult :=
  match truthy (getSubscription reads w tenantId).stripeCustomerId with
  | some cid => (w, .session cid returnUrl)
  | none =>
      match createStripeCustomer createCustomer fails w tenantId email with
      | (w', .stripeError) => (w', .stripeError)
      | (w', .customerId id) =>
          match truthy id with
          | none => (w', .notConfigured)
          | some cid => (w', .session cid returnUrl)

inductive PlanOp where
  | createStripeCustomer (call : String → Option String → CustomerCall) (fails : Bool)
      (tenantId : String) (email : Option String)
  | createPortalUrl (call : String → Option String → CustomerCall) (reads : SubscriptionReads)
      (fails : Bool) (email : Option String) (tenantId returnUrl : String)
  | overridePlan (fails : Bool) (tenantId plan : String)

def PlanOp.world (w : World) : PlanOp → World
  | .createStripeCustomer call fails tid email =>
      (Billing.createStripeCustomer call fails w tid email).1
  | .createPortalUrl call reads fails email tid url =>
      (Billing.createPortalUrl call reads fails email w tid url).1
  | .overridePlan fails tid plan => (Billing.overridePlan fails w tid plan).1

/-- What an override needs to answer with success. -/
def OverrideSucceeds (fails : Bool) (w : World) (tid plan : String) : Prop :=
  plan ∈ validPlans ∧ fails = false ∧ ∃ t ∈ w.tenants, t.id = tid

instance (fails : Bool) (w : World) (tid plan : String) :
    Decidable (OverrideSucceeds fails w tid plan) :=
  inferInstanceAs (Decidable (_ ∧ _ ∧ _))

structure PlanState where
  world : World
  /-- The plan each tenant is supposed to be on. -/
  expected : String → EffectivePlan

def expectedAfter (s : PlanState) : PlanOp → String → EffectivePlan
  | .overridePlan fails tid plan, t =>
      if t = tid ∧ (overridePlan fails s.world tid plan).2.isSuccess then configuredPlan plan
      else s.expected t
  | _, t => s.expected t

def planStep (s : PlanState) (op : PlanOp) : PlanState :=
  { world := op.world s.world
    expected := expectedAfter s op }

def PlansEffective (s : PlanState) : Prop :=
  ∀ t, effectivePlan s.world t = s.expected t

/-- The customer an operation saves, and whether the database fails it. -/
structure CustomerSave where
  fails : Bool
  tenantId : String
  customerId : String

def CustomerSave.statement (c : CustomerSave) : Statement :=
  .saveStripeCustomer c.tenantId c.customerId

def savedCustomer (call : String → Option String → CustomerCall) (fails : Bool)
    (tenantId : String) (email : Option String) : Option CustomerSave :=
  match call tenantId email with
  | .created cid => some ⟨fails, tenantId, cid⟩
  | .notConfigured | .stripeError => none

def PlanOp.save (w : World) : PlanOp → Option CustomerSave
  | .createStripeCustomer call fails tid email => savedCustomer call fails tid email
  | .createPortalUrl call reads fails email tid _ =>
      match truthy (getSubscription reads w tid).stripeCustomerId with
      | some _ => none
      | none => savedCustomer call fails tid email
  | .overridePlan _ _ _ => none

/-- A customer is saved for a tenant with a row, or for one already on the
plan the inserted row spells; an override hits no row, or one that already
shows its plan. -/
def PlanOp.Keeps (w : World) : PlanOp → Prop
  | .overridePlan fails tid plan =>
      OverrideSucceeds fails w tid plan →
        ∀ r, w.rowOfTenant tid = some r → r.toSubscription.plan = configuredPlan plan
  | op => ∀ c ∈ op.save w, (w.execute c.fails c.statement).isSome →
      w.rowOfTenant c.tenantId = none →
        effectivePlan w c.tenantId = configuredPlan "sandbox"

section Save
variable {w w' : World} {tid cid : String} {fails : Bool}

theorem rowOfTenant_save (h : w.execute fails (.saveStripeCustomer tid cid) = some w')
    (t : String) :
    w'.rowOfTenant t =
      if t = tid then
        some (((w.rowOfTenant tid).map (.setCustomer cid)).getD
          { defaultRow tid (some cid) with
            planTier := "sandbox"
            evalRunsLimit := developerLimits.evalRuns
            patternsLimit := developerLimits.patterns
            projectsLimit := developerLimits.projects })
      else w.rowOfTenant t := by
  rw [World.rowOfTenant, (World.execute_eq_some h).2.1]
  simp only [Statement.run]
  rw [find?_insertOnTenant]
  · rfl
  · intro r; rfl
  · rfl

theorem effectivePlan_save (h : w.execute fails (.saveStripeCustomer tid cid) = some w')
    (t : String) :
    effectivePlan w' t =
      if t = tid ∧ w.rowOfTenant tid = none then configuredPlan "sandbox"
      else effectivePlan w t := by
  have hrow := rowOfTenant_save h t
  have htenants := (World.execute_eq_some h).2.2.1
  by_cases ht : t = tid
  · subst ht
    rw [if_pos rfl] at hrow
    cases hold : w.rowOfTenant t with
    | none =>
        rw [hold] at hrow
        rw [effectivePlan_of_row hrow, if_pos ⟨rfl, rfl⟩]
        rfl
    | some r =>
        rw [hold] at hrow
        rw [effectivePlan_of_row hrow, if_neg (by simp), effectivePlan_of_row hold]
        rfl
  · rw [if_neg ht] at hrow
    rw [if_neg fun hand => ht hand.1]
    exact effectivePlan_congr hrow (by rw [htenants])

end Save

section Override
variable {w : World} {fails : Bool} {tid plan : String}

theorem overridePlan_failed (h : ¬ OverrideSucceeds fails w tid plan) :
    (overridePlan fails w tid plan).1 = w ∧
    (overridePlan fails w tid plan).2.isSuccess = false := by
  rw [overridePlan]
  split
  · exact ⟨rfl, rfl⟩
  · split
    · exact ⟨rfl, rfl⟩
    · rename_i hplan hfails
      cases hfind : w.tenants.find? (·.id == tid) with
      | none => exact ⟨rfl, rfl⟩
      | some t =>
          have hid : t.id = tid := by simpa using List.find?_some hfind
          exact absurd ⟨not_not.mp hplan, by simpa using hfails, t,
            List.mem_of_find?_eq_some hfind, hid⟩ h

theorem overridePlan_succeeded (h : OverrideSucceeds fails w tid plan) :
    (overridePlan fails w tid plan).1.subscriptions = w.subscriptions ∧
    (overridePlan fails w tid plan).1.tenants = setPlanTier tid plan w.tenants ∧
    (overridePlan fails w tid plan).2.isSuccess = true := by
  obtain ⟨hplan, hfails, t, ht, hid⟩ := h
  rw [overridePlan, if_neg (not_not.mpr hplan), if_neg (by simp [hfails])]
  cases hfind : w.tenants.find? (·.id == tid) with
  | none => exact absurd (by simpa using hid) (List.find?_eq_none.mp hfind t ht)
  | some t' => exact ⟨rfl, rfl, rfl⟩

theorem find?_setPlanTier (tenants : List TenantRow) (t : String) :
    (setPlanTier tid plan tenants).find? (·.id == t) =
      (tenants.find? (·.id == t)).map fun row =>
        if row.id == tid then { row with planTier := some plan } else row :=
  find?_updateWhere fun _ _ => rfl

/-- Every plan an operator may assign is one `_admin_assigned_plan` honours. -/
theorem assigned_plan_effective (hplan : plan ∈ validPlans) (tid : String) :
    (if stripLower plan = "" ∨ stripLower plan = "free" ∨ stripLower plan = "developer" then
      developerDefault tid
    else if (planLimits.lookup (stripLower plan)).isNone then developerDefault tid
    else adminSubscription tid (stripLower plan)).plan = configuredPlan plan := by
  have hstrip : ∀ plan ∈ validPlans, stripLower plan = plan := by decide
  rw [hstrip plan hplan]
  simp only [validPlans, List.mem_cons, List.not_mem_nil, or_false] at hplan
  rcases hplan with rfl | rfl | rfl | rfl | rfl | rfl <;> rfl

theorem effectivePlan_override (h : OverrideSucceeds fails w tid plan) (t : String) :
    effectivePlan (overridePlan fails w tid plan).1 t =
      if t = tid ∧ w.rowOfTenant tid = none then configuredPlan plan
      else effectivePlan w t := by
  obtain ⟨hrows, htenants, -⟩ := overridePlan_succeeded h
  have hrow (t : String) :
      (overridePlan fails w tid plan).1.rowOfTenant t = w.rowOfTenant t := by
    rw [World.rowOfTenant, hrows]
    rfl
  by_cases ht : t = tid
  · subst ht
    cases hold : w.rowOfTenant t with
    | some r =>
        rw [if_neg (by simp), effectivePlan_of_row hold,
          effectivePlan_of_row ((hrow t).trans hold)]
    | none =>
        rw [if_pos ⟨rfl, rfl⟩, effectivePlan, getSubscription_of_no_row ((hrow t).trans hold)]
        obtain ⟨hplan, -, row, hmem, hid⟩ := h
        have hfind : ∃ row', w.tenants.find? (·.id == t) = some row' ∧ row'.id = t := by
          cases hfind : w.tenants.find? (·.id == t) with
          | none => exact absurd (by simpa using hid) (List.find?_eq_none.mp hfind row hmem)
          | some row' => exact ⟨row', rfl, by simpa using List.find?_some hfind⟩
        obtain ⟨row', hfind, hid'⟩ := hfind
        rw [← assigned_plan_effective hplan t]
        simp only [adminAssignedPlan, htenants, find?_setPlanTier, hfind, Option.map_some,
          hid', beq_self_eq_true, if_true, Option.getD_some, Bool.false_eq_true, if_false]
        split
        · rfl
        · split <;> rfl
  · rw [if_neg fun hand => ht hand.1]
    refine effectivePlan_congr (hrow t) ?_
    rw [htenants, find?_setPlanTier]
    cases hfind : w.tenants.find? (·.id == t) with
    | none => rfl
    | some row =>
        have hid : row.id = t := by simpa using List.find?_some hfind
        simp [hid, ht]

end Override

section Step
variable {w : World}

theorem createStripeCustomer_world (call : String → Option String → CustomerCall)
    (fails : Bool) (tid : String) (email : Option String) :
    (createStripeCustomer call fails w tid email).1 =
      ((savedCustomer call fails tid email).bind fun c =>
        w.execute c.fails c.statement).getD w := by
  rw [createStripeCustomer, savedCustomer]
  cases call tid email with
  | notConfigured | stripeError => rfl
  | created cid => rfl

theorem createPortalUrl_world (call : String → Option String → CustomerCall)
    (reads : SubscriptionReads) (fails : Bool) (email : Option String) (tid url : String) :
    (createPortalUrl call reads fails email w tid url).1 =
      (((PlanOp.createPortalUrl call reads fails email tid url).save w).bind fun c =>
        w.execute c.fails c.statement).getD w := by
  rw [createPortalUrl, PlanOp.save]
  cases truthy (getSubscription reads w tid).stripeCustomerId with
  | some cid => rfl
  | none =>
      dsimp only
      rw [← createStripeCustomer_world]
      rcases createStripeCustomer call fails w tid email with ⟨w', id | -⟩
      · dsimp only
        cases truthy id <;> rfl
      · rfl

theorem effectivePlan_save_iff (save : Option CustomerSave) :
    (∀ t, effectivePlan ((save.bind fun c => w.execute c.fails c.statement).getD w) t =
      effectivePlan w t) ↔
    ∀ c ∈ save, (w.execute c.fails c.statement).isSome → w.rowOfTenant c.tenantId = none →
      effectivePlan w c.tenantId = configuredPlan "sandbox" := by
  cases save with
  | none => simp
  | some c =>
      simp only [Option.bind_some, Option.mem_def, Option.some.injEq, forall_eq']
      cases hexec : w.execute c.fails c.statement with
      | none => simp
      | some w' =>
          simp only [Option.getD_some, Option.isSome_some, forall_const,
            effectivePlan_save hexec]
          constructor
          · intro hall hnone
            have htid := hall c.tenantId
            rw [if_pos ⟨rfl, hnone⟩] at htid
            exact htid.symm
          · intro hplan t
            split
            · rename_i hand
              rw [hand.1]
              exact (hplan hand.2).symm
            · rfl

theorem effectivePlan_override_iff (fails : Bool) (tid plan : String) :
    (∀ t, effectivePlan (overridePlan fails w tid plan).1 t =
      if t = tid ∧ (overridePlan fails w tid plan).2.isSuccess = true then configuredPlan plan
      else effectivePlan w t) ↔
    (OverrideSucceeds fails w tid plan →
      ∀ r, w.rowOfTenant tid = some r → r.toSubscription.plan = configuredPlan plan) := by
  by_cases hsucc : OverrideSucceeds fails w tid plan
  · obtain ⟨-, -, hok⟩ := overridePlan_succeeded hsucc
    simp only [effectivePlan_override hsucc, hok, and_true, hsucc, forall_const]
    constructor
    · intro hall r hrow
      have htid := hall tid
      rw [if_neg (by simp [hrow]), if_pos rfl, effectivePlan_of_row hrow] at htid
      exact htid
    · intro hplan t
      by_cases ht : t = tid
      · subst ht
        cases hrow : w.rowOfTenant t with
        | none => simp
        | some r =>
            rw [if_neg (by simp), if_pos rfl, effectivePlan_of_row hrow]
            exact hplan r hrow
      · rw [if_neg fun hand => ht hand.1, if_neg ht]
  · obtain ⟨hworld, hfail⟩ := overridePlan_failed hsucc
    simp [hworld, hfail, hsucc]

theorem plansEffective_step_iff {s : PlanState} (h : PlansEffective s) (op : PlanOp) :
    PlansEffective (planStep s op) ↔ op.Keeps s.world := by
  have hexpected : s.expected = effectivePlan s.world := funext fun t => (h t).symm
  cases op with
  | createStripeCustomer call fails tid email =>
      rw [PlansEffective, planStep]
      simp only [PlanOp.world, expectedAfter, createStripeCustomer_world, hexpected]
      exact effectivePlan_save_iff _
  | createPortalUrl call reads fails email tid url =>
      rw [PlansEffective, planStep]
      simp only [PlanOp.world, expectedAfter, createPortalUrl_world, hexpected]
      exact effectivePlan_save_iff _
  | overridePlan fails tid plan =>
      rw [PlansEffective, planStep]
      simp only [PlanOp.world, expectedAfter, hexpected]
      exact effectivePlan_override_iff fails tid plan

end Step

def KeepsPlan (s : PlanState) (op : PlanOp) : Prop := op.Keeps s.world

/-- Every tenant stays on the plan it is supposed to be on exactly in the
runs whose steps all keep it. -/
theorem plansEffective_run_iff (w : World) (ops : List PlanOp) :
    Always planStep PlansEffective ⟨w, effectivePlan w⟩ ops ↔
      AllSteps planStep KeepsPlan ⟨w, effectivePlan w⟩ ops :=
  always_iff_allSteps (fun _ op h => plansEffective_step_iff h op) (fun _ => rfl) ops

/-- An operator gives `acme` the team plan; its first portal visit puts it on
the sandbox plan, and no later override gets it off. -/
theorem portal_visit_shadows_plan :
    let team : PlanOp := .overridePlan false "acme" "team"
    let portal : PlanOp :=
      .createPortalUrl (fun _ _ => .created "cus_1") {} false none "acme" "https://app"
    let w := acmeWorld none [] (by decide)
    ¬ Always planStep PlansEffective ⟨w, effectivePlan w⟩ [team, portal] ∧
      effectivePlan (team.world w) "acme" = configuredPlan "team" ∧
      effectivePlan (portal.world (team.world w)) "acme" = configuredPlan "sandbox" ∧
      effectivePlan (team.world (portal.world (team.world w))) "acme" =
        configuredPlan "sandbox" := by
  refine ⟨?_, by decide +kernel, by decide +kernel, by decide +kernel⟩
  intro h
  have hacme := h.last "acme"
  revert hacme
  decide +kernel

end Engramia.Billing
