import Engramia.Billing.AdminPlan

/-!
The overage settings of a tenant over changes of its plan. `set_overage` takes the price and the
unit size from the plan when it inserts the row. On a row that is there it sets the switch and
the cap, and the price stays that of the plan on which the tenant first opted in.

The history keeps, for each tenant, the configuration of the plan in force at its latest call of
`set_overage` that was stored.
-/
namespace Engramia.Billing
open Engramia.Library

section Definitions

/-- The row that `set_overage` inserts for a plan that has overage. -/
def planSettings (tier : String) (enabled : Bool) (budgetCapCents : Option Int) :
    Option OverageSettings :=
  match h : overageConfig.lookup tier with
  | none => none
  | some config =>
      have hmem : (tier, config) ∈ overageConfig := by
        obtain ⟨before, after, hsplit, _⟩ := List.lookup_eq_some_iff.mp h
        rw [hsplit]
        exact List.mem_append_right _ List.mem_cons_self
      some
        { enabled := enabled
          pricePerUnitCents := config.pricePerUnitCents
          unitSize := config.unitSize
          budgetCapCents := budgetCapCents
          unitSize_pos := overageConfig_unitSize_pos (tier, config) hmem }

/-- The row of a tenant for `eval_runs`. -/
def onEvalRuns (tid : String) (r : OverageRow) : Bool :=
  r.tenantId == tid && r.metric == metricEvalRuns

/-- The columns that are set on conflict. -/
def OverageRow.switch (enabled : Bool) (budgetCapCents : Option Int) (r : OverageRow) :
    OverageRow :=
  { r with
    settings := { r.settings with enabled := enabled, budgetCapCents := budgetCapCents } }

inductive SetOverageResult where
  | stored
  | valueError (message : String)
  | databaseError
deriving DecidableEq

/-- `set_overage` -/
def setOverage (reads : SubscriptionReads) (fails : Bool) (w : World) (tenantId : String)
    (enabled : Bool) (budgetCapCents : Option Int) : World × SetOverageResult :=
  let tier := (getSubscription reads w tenantId).planTier
  match planSettings tier enabled budgetCapCents with
  | none => (w, .valueError s!"Overage is not available for plan tier '{tier}'.")
  | some settings =>
      if fails then (w, .databaseError)
      else
        ({ w with
            overageSettings :=
              insertOnConflict (onEvalRuns tenantId) (OverageRow.switch enabled budgetCapCents)
                ⟨tenantId, metricEvalRuns, settings⟩ w.overageSettings },
          .stored)

/-- What reads or changes the plans, and `set_overage`. -/
inductive SettingsOp where
  | deliver (d : Delivery)
  | plan (op : PlanOp)
  | changeDunningState (fails : Bool) (tenantId state : String)
  | setOverage (reads : SubscriptionReads) (fails : Bool) (tenantId : String) (enabled : Bool)
      (budgetCapCents : Option Int)

structure SettingsState where
  world : World
  latest : String → Option OverageTier

def SettingsOp.world (environ : Environ) (w : World) : SettingsOp → World
  | .deliver d => Billing.deliver environ w d
  | .plan op => op.world w
  | .changeDunningState fails tid state => (Billing.changeDunningState fails w tid state).1
  | .setOverage reads fails tid enabled cap =>
      (Billing.setOverage reads fails w tid enabled cap).1

/-- The configuration of the plan in force, if it has overage. -/
def tierInForce (w : World) (tid : String) : Option OverageTier :=
  overageConfig.lookup (effectivePlan w tid).tier

/-- A call of `set_overage` that neither raises nor fails. -/
def Accepted (reads : SubscriptionReads) (fails : Bool) (w : World) (tid : String) : Prop :=
  fails = false ∧ (overageConfig.lookup (getSubscription reads w tid).planTier).isSome

instance decidableAccepted (reads : SubscriptionReads) (fails : Bool) (w : World) (tid : String) :
    Decidable (Accepted reads fails w tid) :=
  inferInstanceAs (Decidable (_ ∧ _))

def latestAfter (s : SettingsState) : SettingsOp → String → Option OverageTier
  | .setOverage reads fails tid _ _, t =>
      if t = tid ∧ Accepted reads fails s.world tid then tierInForce s.world tid else s.latest t
  | _, t => s.latest t

def settingsStep (environ : Environ) (s : SettingsState) (op : SettingsOp) : SettingsState where
  world := op.world environ s.world
  latest := latestAfter s op

/-- The settings are priced as a configuration says. -/
def PricedAs (config : OverageTier) (o : OverageSettings) : Prop :=
  o.pricePerUnitCents = config.pricePerUnitCents ∧ o.unitSize = config.unitSize

instance decidablePricedAs (config : OverageTier) (o : OverageSettings) :
    Decidable (PricedAs config o) :=
  inferInstanceAs (Decidable (_ ∧ _))

/-- The settings that the quota check and the invoices read are priced as the plan in force at
the latest call. -/
def FollowsPlan (s : SettingsState) : Prop :=
  ∀ t config, s.latest t = some config →
    ∃ o, getOverageSettings false s.world t = some o ∧ PricedAs config o

/-- A call that is accepted finds no row, or one that is priced as the plan in force. -/
def FindsPlanPrice (s : SettingsState) : SettingsOp → Prop
  | .setOverage reads fails tid _ _ =>
      Accepted reads fails s.world tid →
        ∀ o config, getOverageSettings false s.world tid = some o →
          tierInForce s.world tid = some config → PricedAs config o
  | _ => True

end Definitions

section Frames
variable {w : World}

theorem deliver_overageSettings (environ : Environ) (w : World) (d : Delivery) :
    (deliver environ w d).overageSettings = w.overageSettings := by
  have hdispatch := (wrote_dispatchEvent environ d w).overageSettings
  rw [deliver, handleWebhookEvent]
  split
  · rfl
  · cases hr : (dispatchEvent environ d w).raised with
    | some e => simpa only [hr] using hdispatch
    | none =>
        simp only [hr, markEventProcessed]
        split <;> exact hdispatch

theorem save_overageSettings (save : Option CustomerSave) :
    ((save.bind fun c => w.execute c.fails c.statement).getD w).overageSettings =
      w.overageSettings := by
  cases hsaved : save.bind fun c => w.execute c.fails c.statement with
  | none => rfl
  | some w' =>
      obtain ⟨c, _, hexecute⟩ := Option.bind_eq_some_iff.mp hsaved
      exact (World.execute_eq_some hexecute).2.2.2.1

theorem plan_overageSettings (op : PlanOp) (w : World) :
    (op.world w).overageSettings = w.overageSettings := by
  cases op with
  | createStripeCustomer call fails tid email =>
      rw [PlanOp.world, createStripeCustomer_world]
      exact save_overageSettings _
  | createPortalUrl call reads fails email tid url =>
      rw [PlanOp.world, createPortalUrl_world]
      exact save_overageSettings _
  | overridePlan fails tid plan =>
      rw [PlanOp.world, overridePlan]
      split
      · rfl
      · split
        · rfl
        · cases w.tenants.find? (·.id == tid) <;> rfl

theorem changeDunningState_overageSettings (fails : Bool) (w : World) (tid state : String) :
    (changeDunningState fails w tid state).1.overageSettings = w.overageSettings := by
  rw [changeDunningState]
  split
  · rfl
  · split
    · rfl
    · cases w.rowOfTenant tid with
      | none => rfl
      | some row =>
          dsimp only
          cases hexecute : w.execute fails (.changeDunningState tid state) with
          | none => rfl
          | some w' => exact (World.execute_eq_some hexecute).2.2.2.1

end Frames

section Calls
variable {w : World} {tid tier : String} {enabled : Bool} {cap : Option Int}

theorem planSettings_none (h : overageConfig.lookup tier = none) :
    planSettings tier enabled cap = none := by
  rw [planSettings]
  split
  case h_1 => rfl
  case h_2 config hlookup => rw [h] at hlookup; cases hlookup

theorem planSettings_some (enabled : Bool) (cap : Option Int) {config : OverageTier}
    (h : overageConfig.lookup tier = some config) :
    ∃ o, planSettings tier enabled cap = some o ∧ PricedAs config o := by
  rw [planSettings]
  split
  case h_1 hlookup => rw [h] at hlookup; cases hlookup
  case h_2 config' hlookup =>
    have heq : config' = config := Option.some.inj (hlookup.symm.trans h)
    exact ⟨_, rfl, congrArg OverageTier.pricePerUnitCents heq, congrArg OverageTier.unitSize heq⟩

/-- A call that reads a plan with overage reads the plan in force. A failing read would give the
free tier. -/
theorem accepted_tier {reads : SubscriptionReads} {fails : Bool} (h : Accepted reads fails w tid) :
    (getSubscription reads w tid).planTier = (effectivePlan w tid).tier := by
  have hfree : overageConfig.lookup (developerDefault tid).planTier = none :=
    show overageConfig.lookup "developer" = none by decide
  have hsome := h.2
  rw [effectivePlan, BillingSubscription.plan]
  rw [getSubscription] at hsome ⊢
  split at hsome
  case isTrue => rw [hfree] at hsome; cases hsome
  case isFalse hrow =>
      rw [if_neg hrow, getSubscription, if_neg Bool.false_ne_true]
      cases hread : w.rowOfTenant tid with
      | some row => rfl
      | none =>
          rw [hread] at hsome
          cases hfails : reads.adminPlan with
          | false => rfl
          | true =>
              rw [hfails, adminAssignedPlan, if_pos rfl] at hsome
              rw [hfree] at hsome
              cases hsome

theorem accepted_inForce {reads : SubscriptionReads} {fails : Bool}
    (h : Accepted reads fails w tid) :
    ∃ config, tierInForce w tid = some config ∧
      overageConfig.lookup (getSubscription reads w tid).planTier = some config := by
  obtain ⟨config, hconfig⟩ := Option.isSome_iff_exists.mp h.2
  refine ⟨config, ?_, hconfig⟩
  rw [tierInForce, ← accepted_tier h]
  exact hconfig

theorem setOverage_rejected {reads : SubscriptionReads} {fails : Bool}
    (h : ¬ Accepted reads fails w tid) : (setOverage reads fails w tid enabled cap).1 = w := by
  rw [setOverage]
  cases hlookup : overageConfig.lookup (getSubscription reads w tid).planTier with
  | none => rw [planSettings_none hlookup]
  | some config =>
      obtain ⟨o, hsettings, _⟩ := planSettings_some enabled cap hlookup
      have hfails : fails = true := by
        cases hf : fails with
        | true => rfl
        | false => exact absurd ⟨hf, hlookup ▸ rfl⟩ h
      rw [hsettings, hfails]
      rfl

theorem setOverage_accepted (enabled : Bool) (cap : Option Int) {reads : SubscriptionReads}
    {fails : Bool} (h : Accepted reads fails w tid) {config : OverageTier}
    (hconfig : tierInForce w tid = some config) :
    ∃ o, PricedAs config o ∧
      (setOverage reads fails w tid enabled cap).1.overageSettings =
        insertOnConflict (onEvalRuns tid) (OverageRow.switch enabled cap)
          ⟨tid, metricEvalRuns, o⟩ w.overageSettings := by
  have hread : overageConfig.lookup (getSubscription reads w tid).planTier = some config := by
    rw [accepted_tier h]
    exact hconfig
  obtain ⟨o, hsettings, hpriced⟩ := planSettings_some enabled cap hread
  refine ⟨o, hpriced, ?_⟩
  rw [setOverage, hsettings, h.1]
  rfl

theorem onEvalRuns_iff {r : OverageRow} :
    onEvalRuns tid r = true ↔ r.tenantId = tid ∧ r.metric = metricEvalRuns := by
  rw [onEvalRuns, Bool.and_eq_true, beq_iff_eq, beq_iff_eq]

theorem setOverage_own (enabled : Bool) (cap : Option Int) {reads : SubscriptionReads}
    {fails : Bool} (h : Accepted reads fails w tid) {config : OverageTier}
    (hconfig : tierInForce w tid = some config) :
    ∃ o, getOverageSettings false (setOverage reads fails w tid enabled cap).1 tid = some o ∧
      (PricedAs config o ↔
        ∀ o', getOverageSettings false w tid = some o' → PricedAs config o') := by
  obtain ⟨new, hnew, hrows⟩ := setOverage_accepted enabled cap h hconfig
  have hfind : (insertOnConflict (onEvalRuns tid) (OverageRow.switch enabled cap)
      ⟨tid, metricEvalRuns, new⟩ w.overageSettings).find? (onEvalRuns tid) = _ :=
    find?_insertOnConflict_self (fun _ hr => hr) (onEvalRuns_iff.mpr ⟨rfl, rfl⟩)
  have hread : ∀ w' : World, getOverageSettings false w' tid =
      (w'.overageSettings.find? (onEvalRuns tid)).map (·.settings) := fun _ => rfl
  rw [hread, hread, hrows, hfind]
  cases w.overageSettings.find? (onEvalRuns tid) with
  | none => exact ⟨new, rfl, iff_of_true hnew fun _ hnone => nomatch hnone⟩
  | some r =>
      refine ⟨(r.switch enabled cap).settings, rfl, ?_⟩
      constructor
      · intro hpriced o' ho'
        rw [← Option.some.inj ho']
        exact hpriced
      · intro hpriced
        exact hpriced r.settings rfl

theorem setOverage_other {reads : SubscriptionReads} {fails : Bool} {t : String} (h : t ≠ tid) :
    getOverageSettings false (setOverage reads fails w tid enabled cap).1 t =
      getOverageSettings false w t := by
  by_cases haccepted : Accepted reads fails w tid
  · obtain ⟨config, hconfig, _⟩ := accepted_inForce haccepted
    obtain ⟨new, _, hrows⟩ :=
      setOverage_accepted enabled cap haccepted hconfig
    have hother : ∀ r : OverageRow, r.tenantId = tid → onEvalRuns t r = false := by
      intro r hr
      rw [Bool.eq_false_iff]
      intro hon
      exact h ((onEvalRuns_iff.mp hon).1.symm.trans hr)
    have hfind : (insertOnConflict (onEvalRuns tid) (OverageRow.switch enabled cap)
        ⟨tid, metricEvalRuns, new⟩ w.overageSettings).find? (onEvalRuns t) =
          w.overageSettings.find? (onEvalRuns t) :=
      find?_insertOnConflict_other (fun r hr => hother r (onEvalRuns_iff.mp hr).1)
        (fun r hr => hother (r.switch enabled cap) (onEvalRuns_iff.mp hr).1) (hother _ rfl)
    have hread : ∀ w' : World, getOverageSettings false w' t =
        (w'.overageSettings.find? (onEvalRuns t)).map (·.settings) := fun _ => rfl
    rw [hread, hread, hrows, hfind]
  · rw [setOverage_rejected haccepted]

end Calls

section Runs
variable {environ : Environ}

theorem getOverageSettings_congr {w w' : World} {fails : Bool} {t : String}
    (h : w'.overageSettings = w.overageSettings) :
    getOverageSettings fails w' t = getOverageSettings fails w t := by
  rw [getOverageSettings, getOverageSettings, h]

theorem followsPlan_keep {s s' : SettingsState}
    (hrows : s'.world.overageSettings = s.world.overageSettings) (hlatest : s'.latest = s.latest)
    (h : FollowsPlan s) : FollowsPlan s' := by
  intro t config hconfig
  rw [getOverageSettings_congr hrows]
  exact h t config (hlatest ▸ hconfig)

theorem followsPlan_step_iff {s : SettingsState} (h : FollowsPlan s) (op : SettingsOp) :
    FollowsPlan (settingsStep environ s op) ↔ FindsPlanPrice s op := by
  cases op with
  | deliver d =>
      exact iff_of_true (followsPlan_keep (deliver_overageSettings environ s.world d) rfl h) trivial
  | plan op =>
      exact iff_of_true (followsPlan_keep (plan_overageSettings op s.world) rfl h) trivial
  | changeDunningState fails tid state =>
      exact iff_of_true
        (followsPlan_keep (changeDunningState_overageSettings fails s.world tid state) rfl h)
        trivial
  | setOverage reads fails tid enabled cap =>
      by_cases haccepted : Accepted reads fails s.world tid
      · obtain ⟨config, hconfig, _⟩ := accepted_inForce haccepted
        obtain ⟨o, hread, hpriced⟩ :=
          setOverage_own enabled cap haccepted hconfig
        have hlatest : latestAfter s (.setOverage reads fails tid enabled cap) tid = some config :=
          (if_pos ⟨rfl, haccepted⟩).trans hconfig
        constructor
        · intro hafter _ o' config' ho' hconfig'
          obtain ⟨o₁, hread₁, hpriced₁⟩ := hafter tid config hlatest
          have heq : o = o₁ := Option.some.inj (hread.symm.trans hread₁)
          rw [← Option.some.inj (hconfig.symm.trans hconfig')]
          exact hpriced.mp (heq ▸ hpriced₁) o' ho'
        · intro hfinds t config' hconfig'
          by_cases ht : t = tid
          · subst ht
            have heq : config' = config := Option.some.inj (hconfig'.symm.trans hlatest)
            refine ⟨o, hread, heq ▸ hpriced.mpr ?_⟩
            intro o' ho'
            exact hfinds haccepted o' config ho' hconfig
          · have hold : s.latest t = some config' := by
              rw [← hconfig']
              exact (if_neg fun hboth => ht hboth.1).symm
            obtain ⟨o₁, hread₁, hpriced₁⟩ := h t config' hold
            exact ⟨o₁, (setOverage_other ht).trans hread₁, hpriced₁⟩
      · have hrows : (settingsStep environ s (.setOverage reads fails tid enabled cap)).world =
            s.world := setOverage_rejected haccepted
        have hlatest : latestAfter s (.setOverage reads fails tid enabled cap) = s.latest := by
          funext t
          exact if_neg fun hboth => haccepted hboth.2
        exact iff_of_true (followsPlan_keep (congrArg World.overageSettings hrows) hlatest h)
          fun hyes => absurd hyes haccepted

/-- The stored price and unit size follow the plan through a run exactly when each call of
`set_overage` that is accepted and finds a row of the tenant finds it priced as the plan then in
force. -/
theorem overage_follows_plan_iff (environ : Environ) (w : World) (ops : List SettingsOp) :
    Always (settingsStep environ) FollowsPlan ⟨w, fun _ => none⟩ ops ↔
      AllSteps (settingsStep environ) FindsPlanPrice ⟨w, fun _ => none⟩ ops :=
  always_iff_allSteps (fun _ op h => followsPlan_step_iff h op)
    (fun _ _ hnone => absurd hnone (Option.some_ne_none _).symm) ops

section Sample

/-- `acme` pays for a plan. -/
def acmePays (id plan : String) : SettingsOp :=
  .deliver (acmeDelivery id 0 (.subscriptionUpdated
    { acmeData "active" with metadata := ⟨some plan, none⟩ }))

/-- `acme` opts in on `pro`, moves to `business` and sets a new cap. -/
def acmeUpgrade : List SettingsOp :=
  [.setOverage {} false "acme" true none, acmePays "evt_1" "business",
    .setOverage {} false "acme" true (some 50000)]

/-- After the upgrade the price is still that of `pro`. -/
theorem upgrade_keeps_old_price :
    let s := exec (settingsStep fun _ => "") ⟨acmePaidWorld, fun _ => none⟩ acmeUpgrade
    s.latest "acme" = some ⟨10000, 250000⟩ ∧
      (getOverageSettings false s.world "acme").map (fun o => (o.pricePerUnitCents, o.unitSize)) =
        some (500, 5000) ∧
      ¬ Always (settingsStep fun _ => "") FollowsPlan ⟨acmePaidWorld, fun _ => none⟩
        acmeUpgrade := by
  intro s
  have hlatest : s.latest "acme" = some ⟨10000, 250000⟩ := by decide +kernel
  have hstored : (getOverageSettings false s.world "acme").map
      (fun o => (o.pricePerUnitCents, o.unitSize)) = some (500, 5000) := by decide +kernel
  refine ⟨hlatest, hstored, ?_⟩
  intro h
  obtain ⟨o, hread, hpriced⟩ := h.last "acme" ⟨10000, 250000⟩ hlatest
  have hprice : o.pricePerUnitCents = 500 :=
    congrArg Prod.fst (Option.some.inj ((congrArg (Option.map _) hread).symm.trans hstored))
  rw [hpriced.1] at hprice
  exact absurd hprice (by decide)

end Sample

end Runs

end Engramia.Billing
