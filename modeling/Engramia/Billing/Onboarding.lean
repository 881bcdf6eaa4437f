import Engramia.Billing.Committed
import Engramia.Billing.TenantView

/-!
Onboarding: the checkout of a tenant and the creation of its subscription
reach the webhook in any order and number. Each delivery either leaves the
row the checkout is heading for where it is, or puts it there.
-/
namespace Engramia.Billing

open Engramia.Library

/-- A signup: who checks out, and the subscription data Stripe holds for it. -/
structure Onboarding where
  tid : String
  cid : String
  data : SubscriptionData
  tid_ne : tid ≠ ""
  cid_ne : cid ≠ ""
  sid_ne : data.id ≠ ""
  customer : data.customer = cid
  metadata : ∀ t ∈ truthy data.metadata.tenantId, t = tid

def Onboarding.session (o : Onboarding) : CheckoutSession :=
  { mode := "subscription"
    clientReferenceId := some o.tid
    customer := some o.cid
    subscription := some o.data.id }

structure Onboarding.Delivers (o : Onboarding) (d : Delivery) : Prop where
  faults : d.faults = {}
  retrieved : d.stripe o.data.id = o.data
  event : d.event.body = .checkoutSessionCompleted o.session ∨
    d.event.body = .subscriptionCreated o.data

/-- A sequence of deliveries of the signup with a checkout that is new to the
database and whose event id names no other event. -/
structure Onboarding.Sequence (o : Onboarding) (w : World) (ds : List Delivery) : Prop where
  delivers : ∀ d ∈ ds, o.Delivers d
  checkout : ∃ d ∈ ds, d.event.body = .checkoutSessionCompleted o.session ∧
    w.hasProcessed d.event.id = false ∧ ∀ d' ∈ ds, d'.event.id = d.event.id → d'.event = d.event

/-- The subscription data written on a row, when they are well formed and the
subscription is the tenant's own. -/
def Onboarding.finish (environ : Environ) (o : Onboarding) (w : World) (r : SubscriptionRow) :
    SubscriptionRow :=
  match upsertParams environ o.data with
  | .ok p => if OwnSubscription o.tid o.data.id w then p.assign r else r
  | .error _ => r

/-- The row a checkout leaves behind. -/
def Onboarding.complete (environ : Environ) (o : Onboarding) (w : World)
    (x : Option SubscriptionRow) : Option SubscriptionRow :=
  some (o.finish environ w (linkRow o.tid o.cid x))

section Rows
variable {environ : Environ} {o : Onboarding} {w w' : World}

theorem Onboarding.finish_congr (hsame : SameBeyond o.tid w w') (r : SubscriptionRow) :
    o.finish environ w' r = o.finish environ w r := by
  rw [Onboarding.finish, Onboarding.finish]
  cases upsertParams environ o.data with
  | error e => rfl
  | ok p => simp only [ownSubscription_congr hsame]

theorem Onboarding.complete_congr (hsame : SameBeyond o.tid w w') (x : Option SubscriptionRow) :
    o.complete environ w' x = o.complete environ w x := by
  rw [Onboarding.complete, Onboarding.complete, o.finish_congr hsame]

theorem Onboarding.finish_customer (r : SubscriptionRow) :
    (o.finish environ w r).stripeCustomerId = r.stripeCustomerId := by
  rw [Onboarding.finish]
  cases upsertParams environ o.data with
  | error e => rfl
  | ok p =>
      dsimp only
      split <;> rfl

theorem linkRow_customer (tid cid : String) (x : Option SubscriptionRow) :
    (linkRow tid cid x).stripeCustomerId = some cid := by
  cases x <;> rfl

theorem setCustomer_eq_self {cid : String} {r : SubscriptionRow}
    (h : r.stripeCustomerId = some cid) : r.setCustomer cid = r := by
  rw [SubscriptionRow.setCustomer, ← h]

theorem Onboarding.finish_idem (r : SubscriptionRow) :
    o.finish environ w (o.finish environ w r) = o.finish environ w r := by
  simp only [Onboarding.finish]
  cases upsertParams environ o.data with
  | error e => rfl
  | ok p =>
      dsimp only
      split <;> rfl

theorem Onboarding.complete_idem (x : Option SubscriptionRow) :
    o.complete environ w (o.complete environ w x) = o.complete environ w x := by
  rw [Onboarding.complete, Onboarding.complete]
  have hcustomer : (o.finish environ w (linkRow o.tid o.cid x)).stripeCustomerId =
      some o.cid := (o.finish_customer _).trans (linkRow_customer o.tid o.cid x)
  congr 1
  change o.finish environ w ((o.finish environ w (linkRow o.tid o.cid x)).setCustomer o.cid) = _
  rw [setCustomer_eq_self hcustomer, o.finish_idem]

theorem Onboarding.complete_upsertRow {p : UpsertParams} {x : Option SubscriptionRow}
    (hparams : upsertParams environ o.data = .ok p) (hown : OwnSubscription o.tid o.data.id w) :
    o.complete environ w (some (upsertRow o.tid p x)) = o.complete environ w x := by
  have hcid : p.cid = o.cid := (upsertParams_ids hparams).1.trans o.customer
  rw [Onboarding.complete, Onboarding.complete]
  simp only [Onboarding.finish, hparams, if_pos hown, Option.some.injEq]
  cases x with
  | some r => rfl
  | none =>
      rw [upsertRow, linkRow, linkRow, ← hcid]
      rfl

theorem Onboarding.upsertRow_complete {p : UpsertParams} {x y : Option SubscriptionRow}
    (hparams : upsertParams environ o.data = .ok p) (hown : OwnSubscription o.tid o.data.id w)
    (hx : x = o.complete environ w y) : some (upsertRow o.tid p x) = x := by
  rw [hx, Onboarding.complete]
  simp only [Onboarding.finish, hparams, if_pos hown, upsertRow, Option.map_some,
    Option.getD_some]
  rfl

end Rows

section Deliveries
variable {environ : Environ} {o : Onboarding} {w : World} {d : Delivery}

variable (environ) in
theorem Onboarding.created_view (hown : OwnCustomer o.tid o.cid w)
    (hfaults : d.faults = {}) (hbody : d.event.body = .subscriptionCreated o.data) :
    SameBeyond o.tid w (dispatchEvent environ d w).world ∧
      o.complete environ w ((dispatchEvent environ d w).world.rowOfTenant o.tid) =
        o.complete environ w (w.rowOfTenant o.tid) ∧
      ∀ y, w.rowOfTenant o.tid = o.complete environ w y →
        (dispatchEvent environ d w).world.rowOfTenant o.tid = o.complete environ w y := by
  have hdispatch : dispatchEvent environ d w = upsertSubscription environ {} w o.data := by
    rw [dispatchEvent, hbody, hfaults]
  have hview := upsertSubscription_view environ {} (o.customer ▸ hown) o.metadata
  rw [hdispatch]
  refine ⟨hview.2, ?_⟩
  rw [hview.1]
  cases hparams : upsertParams environ o.data with
  | error e => exact ⟨rfl, fun _ h => h⟩
  | ok p =>
      dsimp only
      split
      · rename_i hres
        refine ⟨o.complete_upsertRow hparams hres.2.2, fun y hy => ?_⟩
        rw [o.upsertRow_complete hparams hres.2.2 hy]
        exact hy
      · exact ⟨rfl, fun _ h => h⟩

variable (environ) in
theorem Onboarding.checkout_view (hown : OwnCustomer o.tid o.cid w) (hd : o.Delivers d)
    (hbody : d.event.body = .checkoutSessionCompleted o.session) :
    SameBeyond o.tid w (dispatchEvent environ d w).world ∧
      (dispatchEvent environ d w).world.rowOfTenant o.tid =
        o.complete environ w (w.rowOfTenant o.tid) := by
  have htruthy {s : String} (hs : s ≠ "") : truthy (some s) = some s :=
    truthy_eq_some.mpr ⟨rfl, hs⟩
  rw [dispatchEvent, hbody]
  simp only [linkCheckoutSession, Onboarding.session, ne_eq, not_true_eq_false, if_false,
    htruthy o.tid_ne, htruthy o.cid_ne, htruthy o.sid_ne, hd.faults, hd.retrieved,
    Bool.false_eq_true]
  have hlinks := execute_link_isSome hown
  cases hexec : w.execute false (.linkCustomer o.tid o.cid) with
  | none =>
      rw [hexec] at hlinks
      cases hlinks
  | some w₁ =>
      obtain ⟨hrow, hsame⟩ := execute_link_view hexec
      have hview := upsertSubscription_view environ {} (o.customer ▸ hown.congr hsame)
        o.metadata
      refine ⟨hsame.trans hview.2, ?_⟩
      have hlinked : (w₁.rowOfTenant o.tid).any (onCustomer o.data.customer) = true := by
        rw [hrow, o.customer]
        exact onCustomer_iff.mpr (linkRow_customer o.tid o.cid _)
      rw [hview.1, Onboarding.complete, ← o.finish_congr hsame, hrow, Onboarding.finish]
      cases upsertParams environ o.data with
      | error e => rfl
      | ok p =>
          rw [hrow] at hlinked
          dsimp only
          rw [hlinked]
          have hres : Resolves false o.tid o.data true := .inl ⟨rfl, o.tid_ne, rfl⟩
          simp only [hres, true_and]
          split <;> rfl

end Deliveries

section Runs
variable {environ : Environ} {o : Onboarding}

/-- What every delivery of the signup keeps of the first world. -/
structure Onboarding.Underway (environ : Environ) (o : Onboarding) (w₀ w : World) : Prop where
  same : SameBeyond o.tid w₀ w
  completes : o.complete environ w₀ (w.rowOfTenant o.tid) =
    o.complete environ w₀ (w₀.rowOfTenant o.tid)

/-- The tenant's row is the one the checkout is heading for. -/
def Onboarding.Settled (environ : Environ) (o : Onboarding) (w₀ w : World) : Prop :=
  w.rowOfTenant o.tid = o.complete environ w₀ (w₀.rowOfTenant o.tid)

theorem Onboarding.deliver_step {w₀ w : World} {d : Delivery}
    (hown : OwnCustomer o.tid o.cid w₀) (h : o.Underway environ w₀ w) (hd : o.Delivers d) :
    o.Underway environ w₀ (deliver environ w d) ∧
      (o.Settled environ w₀ w → o.Settled environ w₀ (deliver environ w d)) ∧
      (d.event.body = .checkoutSessionCompleted o.session →
        w.hasProcessed d.event.id = false → o.Settled environ w₀ (deliver environ w d)) := by
  have hown' := hown.congr h.same
  cases hskip : isEventProcessed d.faults.isEventProcessed w d.event.id with
  | true =>
      have hsame : deliver environ w d = w := by
        rw [deliver, handleWebhookEvent, hskip, if_pos rfl]
      rw [hsame]
      refine ⟨h, id, fun _ hfresh => ?_⟩
      simp [isEventProcessed, hfresh] at hskip
  | false =>
      rcases hd.event with hbody | hbody
      · obtain ⟨hsame, hrow⟩ := o.checkout_view environ hown' hd hbody
        obtain ⟨hrow', hsame'⟩ := deliver_view hskip hrow hsame rfl
        rw [o.complete_congr h.same] at hrow'
        have hsettled : o.Settled environ w₀ (deliver environ w d) := hrow'.trans h.completes
        refine ⟨⟨h.same.trans hsame', ?_⟩, fun _ => hsettled, fun _ _ => hsettled⟩
        rw [hsettled, o.complete_idem]
      · obtain ⟨hsame, hkeep, hfix⟩ := o.created_view environ hown' hd.faults hbody
        obtain ⟨hrow', hsame'⟩ := deliver_view hskip rfl hsame rfl
        simp only [o.complete_congr h.same] at hkeep hfix
        refine ⟨⟨h.same.trans hsame', ?_⟩, fun hset => ?_, fun hcheck => ?_⟩
        · rw [hrow', hkeep]
          exact h.completes
        · exact hrow'.trans (hfix _ hset)
        · rw [hbody] at hcheck
          cases hcheck

theorem Onboarding.settled_run {w₀ w : World} {ds : List Delivery}
    (hown : OwnCustomer o.tid o.cid w₀) (h : o.Underway environ w₀ w)
    (hset : o.Settled environ w₀ w) (hds : ∀ d ∈ ds, o.Delivers d) :
    o.Underway environ w₀ (exec (deliver environ) w ds) ∧
      o.Settled environ w₀ (exec (deliver environ) w ds) := by
  induction ds generalizing w with
  | nil => exact ⟨h, hset⟩
  | cons d ds ih =>
      obtain ⟨h', hkeep, -⟩ := o.deliver_step hown h (hds d List.mem_cons_self)
      exact ih h' (hkeep hset) fun d' hd' => hds d' (List.mem_cons_of_mem d hd')

theorem Onboarding.run_settles {w₀ w : World} {ds : List Delivery} {e : Event}
    (hown : OwnCustomer o.tid o.cid w₀) (h : o.Underway environ w₀ w)
    (hds : ∀ d ∈ ds, o.Delivers d) (hbody : e.body = .checkoutSessionCompleted o.session)
    (hfresh : w.hasProcessed e.id = false) (hmem : ∃ d ∈ ds, d.event = e)
    (hid : ∀ d ∈ ds, d.event.id = e.id → d.event = e) :
    o.Underway environ w₀ (exec (deliver environ) w ds) ∧
      o.Settled environ w₀ (exec (deliver environ) w ds) := by
  induction ds generalizing w with
  | nil =>
      obtain ⟨d, hd, -⟩ := hmem
      cases hd
  | cons d ds ih =>
      obtain ⟨h', -, hcheck⟩ := o.deliver_step hown h (hds d List.mem_cons_self)
      have hrest : ∀ d' ∈ ds, o.Delivers d' := fun d' hd' => hds d' (List.mem_cons_of_mem d hd')
      by_cases heq : d.event.id = e.id
      · have hevent := hid d List.mem_cons_self heq
        rw [hevent] at hcheck
        rw [exec_cons]
        exact o.settled_run hown h' (hcheck hbody hfresh) hrest
      · have hnext := hasProcessed_deliver environ heq hfresh
        apply ih h' hrest hnext
        · obtain ⟨d', hd', hevent⟩ := hmem
          rcases List.mem_cons.mp hd' with rfl | hd'
          · exact absurd (congrArg Event.id hevent) heq
          · exact ⟨d', hd', hevent⟩
        · exact fun d' hd' => hid d' (List.mem_cons_of_mem d hd')

variable (environ) in
/-- Every sequence of deliveries of a signup ends at the row of its checkout
and leaves the other tenants alone. -/
theorem onboarding_final_row {w : World} {ds : List Delivery}
    (hown : OwnCustomer o.tid o.cid w) (h : o.Sequence w ds) :
    (exec (deliver environ) w ds).rowOfTenant o.tid =
        o.complete environ w (w.rowOfTenant o.tid) ∧
      ∀ t, t ≠ o.tid → (exec (deliver environ) w ds).rowOfTenant t = w.rowOfTenant t := by
  obtain ⟨d, hd, hbody, hfresh, hid⟩ := h.checkout
  have hstart : o.Underway environ w w := ⟨SameBeyond.refl o.tid w, rfl⟩
  obtain ⟨hunder, hset⟩ := o.run_settles hown hstart h.delivers hbody hfresh ⟨d, hd, rfl⟩ hid
  exact ⟨hset, hunder.same.rows⟩

end Runs

/-- The order and number of the deliveries of a signup do not matter. -/
theorem onboarding_order_independent (environ : Environ) (o : Onboarding) {w : World}
    (hown : OwnCustomer o.tid o.cid w) {ds ds' : List Delivery} (h : o.Sequence w ds)
    (h' : o.Sequence w ds') :
    (exec (deliver environ) w ds).rowOfTenant o.tid =
        (exec (deliver environ) w ds').rowOfTenant o.tid ∧
      ∀ t, t ≠ o.tid → (exec (deliver environ) w ds).rowOfTenant t = w.rowOfTenant t := by
  obtain ⟨hrow, hothers⟩ := onboarding_final_row environ hown h
  obtain ⟨hrow', -⟩ := onboarding_final_row environ hown h'
  exact ⟨hrow.trans hrow'.symm, hothers⟩

/-- The signup of `acme`, whose subscription metadata names no tenant. -/
def acmeSignup : Onboarding :=
  { tid := "acme"
    cid := "cus_1"
    data := acmeData "active"
    tid_ne := acme_ne_empty
    cid_ne := by decide
    sid_ne := by decide
    customer := rfl
    metadata := by decide }

def acmeCheckout : Delivery :=
  acmeDelivery "evt_1" 0 (.checkoutSessionCompleted acmeSignup.session)

def acmeCreated : Delivery := acmeDelivery "evt_2" 60 (.subscriptionCreated (acmeData "active"))

def acmeNewWorld : World := acmeWorld none [] (by decide)

/-- Created before checkout, and created twice after it. -/
theorem onboarding_order_independent_acme :
    (exec (deliver fun _ => "") acmeNewWorld [acmeCreated, acmeCheckout]).rowOfTenant "acme" =
      (exec (deliver fun _ => "") acmeNewWorld
        [acmeCheckout, acmeCreated, acmeCreated]).rowOfTenant "acme" := by
  have hown : OwnCustomer acmeSignup.tid acmeSignup.cid acmeNewWorld := by decide
  have hdelivers : ∀ d, d = acmeCreated ∨ d = acmeCheckout → acmeSignup.Delivers d := by
    rintro d (rfl | rfl)
    · exact ⟨rfl, rfl, .inr rfl⟩
    · exact ⟨rfl, rfl, .inl rfl⟩
  have hfirst : acmeSignup.Sequence acmeNewWorld [acmeCreated, acmeCheckout] :=
    ⟨by simpa using hdelivers, acmeCheckout, by simp, rfl, by decide, by decide⟩
  have hsecond : acmeSignup.Sequence acmeNewWorld [acmeCheckout, acmeCreated, acmeCreated] :=
    ⟨by simpa [or_comm] using hdelivers, acmeCheckout, by simp, rfl, by decide, by decide⟩
  exact (onboarding_order_independent (fun _ => "") acmeSignup hown hfirst hsecond).1

end Engramia.Billing
