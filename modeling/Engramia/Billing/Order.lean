import Engramia.Billing.TenantView
import Engramia.Library.Register

/-!
Delivery order. No handler compares event times: the plan columns and the
status of a tenant are registers, and the last event that reaches the row
decides them. What follows is the simulation of the handlers by these two
registers and the exact condition under which two orders agree.
-/
namespace Engramia.Billing

open Engramia.Library

/-- A customer's subscription and the tenant it belongs to. -/
structure Subscriber where
  tid : String
  cid : String
  sid : String

def EventBody.Concerns (s : Subscriber) : EventBody → Prop
  | .subscriptionCreated data | .subscriptionUpdated data =>
      data.customer = s.cid ∧ data.id = s.sid ∧ ∀ t ∈ truthy data.metadata.tenantId, t = s.tid
  | .subscriptionDeleted cid | .invoicePaymentFailed cid | .invoicePaid cid => cid = s.cid
  | _ => False

/-- Events of the subscription, each delivered once to a database that has not
seen them. -/
structure History (s : Subscriber) (w : World) (ds : List Delivery) : Prop where
  concerns : ∀ d ∈ ds, d.event.body.Concerns s
  distinct : (ds.map (·.event.id)).Nodup
  fresh : ∀ d ∈ ds, w.hasProcessed d.event.id = false

def SubscriptionRow.planColumns (r : SubscriptionRow) : String × PlanLimits :=
  (r.planTier, ⟨r.evalRunsLimit, r.patternsLimit, r.projectsLimit⟩)

structure BillingView where
  linked : Bool
  plan : String × PlanLimits
  status : String
deriving DecidableEq

def billingView (cid : String) (x : Option SubscriptionRow) : Option BillingView :=
  x.map fun r => ⟨onCustomer cid r, r.planColumns, r.status⟩

/-- Plan tier, limits and status of the tenant. -/
def billingColumns (s : Subscriber) (w : World) : Option ((String × PlanLimits) × String) :=
  (w.rowOfTenant s.tid).map fun r => (r.planColumns, r.status)

/-- The plan an event writes, if it is one that writes plans. -/
def planWrite (environ : Environ) (d : Delivery) : Option (String × PlanLimits) :=
  match d.event.body with
  | .subscriptionCreated data | .subscriptionUpdated data =>
      match upsertParams environ data with
      | .ok p => some (p.tier, p.limits)
      | .error _ => none
  | .subscriptionDeleted _ => some ("sandbox", developerLimits)
  | _ => none

def statusWrite (environ : Environ) (d : Delivery) : Option String :=
  match d.event.body with
  | .subscriptionCreated data | .subscriptionUpdated data =>
      match upsertParams environ data with
      | .ok p => some p.status
      | .error _ => none
  | .subscriptionDeleted _ => some "canceled"
  | .invoicePaymentFailed _ => some "past_due"
  | .invoicePaid _ => some "active"
  | _ => none

/-- Whether the statement of an event hits the tenant's row. `own` says that
the subscription is on no other tenant's row. -/
def reaches (environ : Environ) (s : Subscriber) (own linked : Bool) (d : Delivery) : Bool :=
  match d.event.body with
  | .subscriptionCreated data | .subscriptionUpdated data =>
      decide ((planWrite environ d).isSome ∧
        Resolves d.faults.tenantByCustomer s.tid data linked ∧
        d.faults.upsert = false ∧ own = true)
  | .subscriptionDeleted _ => linked && !d.faults.downgrade
  | .invoicePaymentFailed _ | .invoicePaid _ => linked && !d.faults.setStatus
  | _ => false

section Machine
variable (environ : Environ) (s : Subscriber) (own : Bool)

/-- One delivery on the two registers. -/
def viewStep : Option BillingView → Delivery → Option BillingView
  | some v, d =>
      if reaches environ s own v.linked d then
        some ⟨v.linked, (planWrite environ d).getD v.plan, (statusWrite environ d).getD v.status⟩
      else some v
  | none, d =>
      if reaches environ s own false d then
        (planWrite environ d).bind fun plan =>
          (statusWrite environ d).map fun status => ⟨true, plan, status⟩
      else none

/-- The deliveries that reach the row: all that pass its link, once there is
a row. -/
def decisive (v : Option BillingView) (ds : List Delivery) : List Delivery :=
  match v with
  | some v => ds.filter (reaches environ s own v.linked)
  | none =>
      (ds.dropWhile fun d => !reaches environ s own false d).filter (reaches environ s own true)

variable {environ s own}

theorem reaches_false {d : Delivery} (h : reaches environ s own false d = true) :
    (∃ plan status, planWrite environ d = some plan ∧ statusWrite environ d = some status) ∧
      reaches environ s own true d = true := by
  rw [reaches, planWrite] at h
  rw [reaches, planWrite, statusWrite]
  cases hbody : d.event.body with
  | subscriptionCreated data | subscriptionUpdated data =>
      simp only [hbody, decide_eq_true_eq] at h ⊢
      obtain ⟨hsome, hres, hrest⟩ := h
      have hres' : Resolves d.faults.tenantByCustomer s.tid data true :=
        hres.imp_left fun hlinked => ⟨hlinked.1, hlinked.2.1, rfl⟩
      refine ⟨?_, hsome, hres', hrest⟩
      cases hparams : upsertParams environ data with
      | error e => simp [hparams] at hsome
      | ok p => exact ⟨_, _, rfl, rfl⟩
  | subscriptionDeleted cid | invoicePaymentFailed cid | invoicePaid cid =>
      simp [hbody] at h
  | checkoutSessionCompleted session | invoiceCreated customer | unhandled type =>
      simp [hbody] at h

theorem exec_viewStep_some (v : BillingView) (ds : List Delivery) :
    exec (viewStep environ s own) (some v) ds =
      some ⟨v.linked,
        writeAll (planWrite environ) v.plan (decisive environ s own (some v) ds),
        writeAll (statusWrite environ) v.status (decisive environ s own (some v) ds)⟩ := by
  induction ds generalizing v with
  | nil => rfl
  | cons d ds ih =>
      rw [exec_cons, viewStep]
      by_cases hreach : reaches environ s own v.linked d = true
      · rw [if_pos hreach, ih]
        simp [decisive, hreach]
      · rw [if_neg hreach, ih]
        simp [decisive, hreach]

theorem exec_viewStep_none (ds : List Delivery) :
    (exec (viewStep environ s own) none ds).map (fun v => (v.plan, v.status)) =
      (lastWrite (planWrite environ) (decisive environ s own none ds)).bind fun plan =>
        (lastWrite (statusWrite environ) (decisive environ s own none ds)).map fun status =>
          (plan, status) := by
  induction ds with
  | nil => rfl
  | cons d ds ih =>
      rw [exec_cons, viewStep]
      by_cases hreach : reaches environ s own false d = true
      · obtain ⟨⟨plan, status, hplan, hstatus⟩, htrue⟩ := reaches_false hreach
        rw [if_pos hreach, hplan, hstatus]
        have hdecisive : decisive environ s own none (d :: ds) =
            d :: decisive environ s own (some ⟨true, plan, status⟩) ds := by
          simp [decisive, hreach, htrue]
        rw [hdecisive, lastWrite_cons, lastWrite_cons, hplan, hstatus]
        change Option.map _ (exec (viewStep environ s own) (some ⟨true, plan, status⟩) ds) = _
        rw [exec_viewStep_some, writeAll_eq_lastWrite, writeAll_eq_lastWrite]
        cases lastWrite (planWrite environ)
            (decisive environ s own (some ⟨true, plan, status⟩) ds) <;>
          cases lastWrite (statusWrite environ)
            (decisive environ s own (some ⟨true, plan, status⟩) ds) <;> rfl
      · rw [if_neg hreach, ih]
        have hdecisive : decisive environ s own none (d :: ds) =
            decisive environ s own none ds := by
          simp [decisive, hreach]
        rw [hdecisive]

end Machine

section Simulation
variable {environ : Environ} {s : Subscriber} {w : World} {d : Delivery}

theorem upsertRow_view {data : SubscriptionData} {own : Prop} [Decidable own]
    (hbody : d.event.body = .subscriptionCreated data ∨ d.event.body = .subscriptionUpdated data)
    (hcid : data.customer = s.cid) (x : Option SubscriptionRow) :
    billingView s.cid
        (match upsertParams environ data with
        | .ok p =>
            if Resolves d.faults.tenantByCustomer s.tid data (x.any (onCustomer s.cid)) ∧
                d.faults.upsert = false ∧ own then
              some (upsertRow s.tid p x)
            else x
        | .error _ => x) =
      viewStep environ s (decide own) (billingView s.cid x) d := by
  have hplan : planWrite environ d = match upsertParams environ data with
      | .ok p => some (p.tier, p.limits)
      | .error _ => none := by
    rcases hbody with hbody | hbody <;> rw [planWrite, hbody]
  have hstatus : statusWrite environ d = match upsertParams environ data with
      | .ok p => some p.status
      | .error _ => none := by
    rcases hbody with hbody | hbody <;> rw [statusWrite, hbody]
  have hreaches (linked : Bool) : reaches environ s (decide own) linked d =
      decide ((planWrite environ d).isSome ∧
        Resolves d.faults.tenantByCustomer s.tid data linked ∧
        d.faults.upsert = false ∧ decide own = true) := by
    rcases hbody with hbody | hbody <;> rw [reaches, hbody]
  cases hparams : upsertParams environ data with
  | error e =>
      have hno (linked : Bool) : reaches environ s (decide own) linked d = false := by
        simp [hreaches, hplan, hparams]
      cases x with
      | none => simp [billingView, viewStep, hno]
      | some r => simp [billingView, viewStep, hno]
  | ok p =>
      have hpcid : p.cid = s.cid := (upsertParams_ids hparams).1.trans hcid
      have hyes (linked : Bool) : reaches environ s (decide own) linked d =
          decide (Resolves d.faults.tenantByCustomer s.tid data linked ∧
            d.faults.upsert = false ∧ own) := by
        simp [hreaches, hplan, hparams]
      simp only [hparams] at hplan hstatus
      cases x with
      | none =>
          simp only [billingView, viewStep, hyes, Option.any_none, Option.map_none,
            decide_eq_true_eq, hplan, hstatus]
          split
          · simp [upsertRow, UpsertParams.assign, SubscriptionRow.planColumns, onCustomer,
              defaultRow, hpcid]
          · rfl
      | some r =>
          simp only [billingView, viewStep, hyes, Option.any_some, Option.map_some,
            decide_eq_true_eq, hplan, hstatus]
          split <;> rfl

theorem customer_view {own : Bool} {fails : Bool} {f : SubscriptionRow → SubscriptionRow}
    (hreaches : ∀ linked, reaches environ s own linked d = (linked && !fails))
    (hcid : ∀ r, (f r).stripeCustomerId = r.stripeCustomerId)
    (hplan : ∀ r, (f r).planColumns = (planWrite environ d).getD r.planColumns)
    (hstatus : ∀ r, (f r).status = (statusWrite environ d).getD r.status)
    (x : Option SubscriptionRow) :
    billingView s.cid
        (if fails = false then x.map fun r => if onCustomer s.cid r then f r else r else x) =
      viewStep environ s own (billingView s.cid x) d := by
  cases x with
  | none => simp [billingView, viewStep, hreaches]
  | some r =>
      cases fails with
      | true => simp [billingView, viewStep, hreaches]
      | false =>
          by_cases hon : onCustomer s.cid r = true
          · have hon' : onCustomer s.cid (f r) = true := by
              rw [onCustomer_iff, hcid]
              exact onCustomer_iff.mp hon
            simp [billingView, viewStep, hreaches, hon, hon', hplan, hstatus]
          · simp [billingView, viewStep, hreaches, hon]

theorem dispatch_simulates (environ : Environ) (hown : OwnCustomer s.tid s.cid w)
    (hconcerns : d.event.body.Concerns s) :
    billingView s.cid ((dispatchEvent environ d w).world.rowOfTenant s.tid) =
        viewStep environ s (decide (OwnSubscription s.tid s.sid w))
          (billingView s.cid (w.rowOfTenant s.tid)) d ∧
      SameBeyond s.tid w (dispatchEvent environ d w).world := by
  rw [dispatchEvent]
  cases hbody : d.event.body with
  | subscriptionCreated data | subscriptionUpdated data =>
      rw [hbody] at hconcerns
      obtain ⟨hcid, hsid, hmeta⟩ := hconcerns
      have hview := upsertSubscription_view environ d.faults (hcid ▸ hown) hmeta
      refine ⟨?_, hview.2⟩
      dsimp only
      rw [hview.1, hcid, hsid]
      exact upsertRow_view (by simp [hbody]) hcid _
  | subscriptionDeleted cid =>
      rw [hbody] at hconcerns
      cases hconcerns
      have hview := execute_downgrade_view d.faults.downgrade hown
      refine ⟨?_, hview.2⟩
      dsimp only [downgradeToSandbox]
      rw [hview.1]
      apply customer_view
      · intro linked; rw [reaches, hbody]
      · intro r; rfl
      · intro r; rw [planWrite, hbody]; rfl
      · intro r; rw [statusWrite, hbody]; rfl
  | invoicePaymentFailed cid | invoicePaid cid =>
      rw [hbody] at hconcerns
      cases hconcerns
      have hview (status : String) :=
        execute_setStatus_view d.faults.setStatus status d.clock.now hown
      refine ⟨?_, (hview _).2⟩
      dsimp only [setStatusByCustomer]
      rw [(hview _).1]
      apply customer_view
      · intro linked; rw [reaches, hbody]
      · exact fun r => (statusUpdate_keys _ _ r).2.1
      · intro r; rw [planWrite, hbody]; rfl
      · intro r; rw [statusWrite, hbody]; rfl
  | checkoutSessionCompleted session | invoiceCreated customer | unhandled type =>
      rw [hbody] at hconcerns
      cases hconcerns

theorem deliver_simulates (environ : Environ) (hown : OwnCustomer s.tid s.cid w)
    (hconcerns : d.event.body.Concerns s) (hfresh : w.hasProcessed d.event.id = false) :
    billingView s.cid ((deliver environ w d).rowOfTenant s.tid) =
        viewStep environ s (decide (OwnSubscription s.tid s.sid w))
          (billingView s.cid (w.rowOfTenant s.tid)) d ∧
      SameBeyond s.tid w (deliver environ w d) := by
  obtain ⟨hrow, hsame⟩ := dispatch_simulates environ hown hconcerns
  have hskip : isEventProcessed d.faults.isEventProcessed w d.event.id = false := by
    simp [isEventProcessed, hfresh]
  obtain ⟨hrow', hsame'⟩ := deliver_view hskip rfl hsame rfl
  rw [hrow']
  exact ⟨hrow, hsame'⟩

theorem History.tail {ds : List Delivery} (h : History s w (d :: ds)) :
    History s (deliver environ w d) ds := by
  obtain ⟨hnotMem, hdistinct⟩ := List.nodup_cons.mp h.distinct
  refine ⟨fun d' hd' => h.concerns d' (List.mem_cons_of_mem d hd'), hdistinct, ?_⟩
  intro d' hd'
  apply hasProcessed_deliver environ
  · intro heq
    have hmem : d'.event.id ∈ ds.map (·.event.id) := List.mem_map_of_mem hd'
    rw [← heq] at hmem
    exact hnotMem hmem
  · exact h.fresh d' (List.mem_cons_of_mem d hd')

theorem history_simulates (environ : Environ) {ds : List Delivery}
    (hown : OwnCustomer s.tid s.cid w) (h : History s w ds) :
    billingView s.cid ((exec (deliver environ) w ds).rowOfTenant s.tid) =
      exec (viewStep environ s (decide (OwnSubscription s.tid s.sid w)))
        (billingView s.cid (w.rowOfTenant s.tid)) ds := by
  induction ds generalizing w with
  | nil => rfl
  | cons d ds ih =>
      obtain ⟨hview, hsame⟩ := deliver_simulates environ hown
        (h.concerns d List.mem_cons_self) (h.fresh d List.mem_cons_self)
      have hnext := ih (hown.congr hsame) h.tail
      rw [exec_cons, exec_cons, hnext, hview, decide_eq_decide.mpr (ownSubscription_congr hsame)]

theorem History.perm {ds ds' : List Delivery} (h : History s w ds) (hperm : ds'.Perm ds) :
    History s w ds' :=
  ⟨fun d hd => h.concerns d (hperm.mem_iff.mp hd), (hperm.map _).nodup_iff.mpr h.distinct,
    fun d hd => h.fresh d (hperm.mem_iff.mp hd)⟩

end Simulation

/-- The deliveries that reach the tenant's row in a run from `w`. -/
def decisiveFrom (environ : Environ) (s : Subscriber) (w : World) (ds : List Delivery) :
    List Delivery :=
  decisive environ s (decide (OwnSubscription s.tid s.sid w))
    (billingView s.cid (w.rowOfTenant s.tid)) ds

theorem billingColumns_eq_view (s : Subscriber) (w : World) :
    billingColumns s w =
      (billingView s.cid (w.rowOfTenant s.tid)).map fun v => (v.plan, v.status) := by
  rw [billingColumns, billingView, Option.map_map]
  rfl

theorem lastWrite_decisive_none (environ : Environ) (s : Subscriber) (own : Bool)
    (ds : List Delivery) :
    (lastWrite (planWrite environ) (decisive environ s own none ds)).isSome =
        ds.any (reaches environ s own false) ∧
      (lastWrite (statusWrite environ) (decisive environ s own none ds)).isSome =
        ds.any (reaches environ s own false) := by
  induction ds with
  | nil => exact ⟨rfl, rfl⟩
  | cons d ds ih =>
      by_cases hreach : reaches environ s own false d = true
      · obtain ⟨⟨plan, status, hplan, hstatus⟩, htrue⟩ := reaches_false hreach
        simp [decisive, hreach, htrue, lastWrite_cons, hplan, hstatus]
      · have hdecisive : decisive environ s own none (d :: ds) =
            decisive environ s own none ds := by
          simp [decisive, hreach]
        simp only [hdecisive, ih, List.any_cons, hreach, Bool.false_or, and_self]

/-- The registers end alike in two orders exactly when the last plan and the
last status that reach the row are alike. -/
theorem registers_agree_iff (environ : Environ) (s : Subscriber) (own : Bool)
    (v : Option BillingView) {ds ds' : List Delivery} (hperm : ds'.Perm ds) :
    (exec (viewStep environ s own) v ds').map (fun v => (v.plan, v.status)) =
        (exec (viewStep environ s own) v ds).map (fun v => (v.plan, v.status)) ↔
      lastWrite (planWrite environ) (decisive environ s own v ds') =
          lastWrite (planWrite environ) (decisive environ s own v ds) ∧
        lastWrite (statusWrite environ) (decisive environ s own v ds') =
          lastWrite (statusWrite environ) (decisive environ s own v ds) := by
  cases v with
  | some v =>
      have hfilter : (decisive environ s own (some v) ds').Perm
          (decisive environ s own (some v) ds) := hperm.filter _
      rw [exec_viewStep_some, exec_viewStep_some, ← writeAll_eq_iff_of_perm _ hfilter v.plan,
        ← writeAll_eq_iff_of_perm _ hfilter v.status]
      simp
  | none =>
      have hany : ds'.any (reaches environ s own false) = ds.any (reaches environ s own false) := by
        rw [Bool.eq_iff_iff, List.any_eq_true, List.any_eq_true]
        simp only [hperm.mem_iff]
      obtain ⟨hplan, hstatus⟩ := lastWrite_decisive_none environ s own ds
      obtain ⟨hplan', hstatus'⟩ := lastWrite_decisive_none environ s own ds'
      rw [exec_viewStep_none, exec_viewStep_none]
      rw [hany] at hplan' hstatus'
      cases hreach : ds.any (reaches environ s own false) with
      | true =>
          rw [hreach] at hplan hstatus hplan' hstatus'
          obtain ⟨p, hp⟩ := Option.isSome_iff_exists.mp hplan
          obtain ⟨t, ht⟩ := Option.isSome_iff_exists.mp hstatus
          obtain ⟨p', hp'⟩ := Option.isSome_iff_exists.mp hplan'
          obtain ⟨t', ht'⟩ := Option.isSome_iff_exists.mp hstatus'
          simp [hp, ht, hp', ht']
      | false =>
          rw [hreach] at hplan hstatus hplan' hstatus'
          simp only [Option.isSome_eq_false_iff, Option.isNone_iff_eq_none]
            at hplan hstatus hplan' hstatus'
          simp [hplan, hstatus, hplan', hstatus']

/-- Two orders of a history leave the tenant alike exactly when the last plan
and the last status that reach its row are alike. -/
theorem order_irrelevant_iff (environ : Environ) (s : Subscriber) {w : World}
    (hown : OwnCustomer s.tid s.cid w) {ds ds' : List Delivery} (h : History s w ds)
    (hperm : ds'.Perm ds) :
    billingColumns s (exec (deliver environ) w ds') =
        billingColumns s (exec (deliver environ) w ds) ↔
      lastWrite (planWrite environ) (decisiveFrom environ s w ds') =
          lastWrite (planWrite environ) (decisiveFrom environ s w ds) ∧
        lastWrite (statusWrite environ) (decisiveFrom environ s w ds') =
          lastWrite (statusWrite environ) (decisiveFrom environ s w ds) := by
  rw [billingColumns_eq_view, billingColumns_eq_view, history_simulates environ hown h,
    history_simulates environ hown (h.perm hperm)]
  exact registers_agree_iff environ s _ _ hperm

def acmeSubscriber : Subscriber := ⟨"acme", "cus_1", "sub_1"⟩

def acmeUpdated : Delivery :=
  acmeDelivery "evt_1" 0 (.subscriptionUpdated (acmeData "active"))

def acmeDeleted : Delivery := acmeDelivery "evt_2" 60 (.subscriptionDeleted "cus_1")

def acmePaid : Delivery := acmeDelivery "evt_3" 30 (.invoicePaid "cus_1")

/-- The payment before or after the update that says active as well. -/
theorem order_irrelevant_acme :
    billingColumns acmeSubscriber
        (exec (deliver fun _ => "") acmePaidWorld [acmePaid, acmeUpdated]) =
      billingColumns acmeSubscriber
        (exec (deliver fun _ => "") acmePaidWorld [acmeUpdated, acmePaid]) := by
  have hown : OwnCustomer acmeSubscriber.tid acmeSubscriber.cid acmePaidWorld := by decide
  have hhistory : History acmeSubscriber acmePaidWorld [acmeUpdated, acmePaid] := by
    refine ⟨?_, by decide, by decide⟩
    simp only [List.mem_cons, List.not_mem_nil, or_false, forall_eq_or_imp, forall_eq]
    exact ⟨⟨rfl, rfl, by decide⟩, rfl⟩
  exact (order_irrelevant_iff (fun _ => "") acmeSubscriber hown hhistory (.swap _ _ _)).mpr
    (by decide +kernel)

/-- The update was created before the deletion; delivered after it, it puts
the tenant back on the paid plan. -/
theorem late_update_restores_plan :
    History acmeSubscriber acmePaidWorld [acmeUpdated, acmeDeleted] ∧
    billingColumns acmeSubscriber
        (exec (deliver fun _ => "") acmePaidWorld [acmeUpdated, acmeDeleted]) =
      some (("sandbox", developerLimits), "canceled") ∧
    billingColumns acmeSubscriber
        (exec (deliver fun _ => "") acmePaidWorld [acmeDeleted, acmeUpdated]) =
      some (("pro", planLimitsOrDeveloper "pro"), "active") := by
  refine ⟨⟨?_, by decide, by decide⟩, by decide +kernel, by decide +kernel⟩
  simp only [List.mem_cons, List.not_mem_nil, or_false, forall_eq_or_imp, forall_eq]
  exact ⟨⟨rfl, rfl, by decide⟩, rfl⟩

end Engramia.Billing
