import Engramia.Billing.Webhook
import Engramia.Library.Run

/-!
What a delivery writes. Whatever path the handler takes, the subscription
rows change only by the statements it commits, in order; the lists below
name them for every path. Results about rows are then about single
statements.
-/
namespace Engramia.Billing

open Engramia.Library

/-- The statement, if it commits. -/
def World.commits (w : World) (fails : Bool) (st : Statement) : List Statement :=
  if (w.execute fails st).isSome then [st] else []

def upsertCommits (environ : Environ) (f : Faults) (w : World) (data : SubscriptionData) :
    List Statement :=
  match upsertParams environ data, resolveTenant f.tenantByCustomer w data with
  | .ok p, some tid => w.commits f.upsert (.upsertSubscription tid p)
  | _, _ => []

def linkCommits (environ : Environ) (d : Delivery) (w : World) (session : CheckoutSession) :
    List Statement :=
  if session.mode ≠ "subscription" then []
  else
    match truthy session.clientReferenceId, truthy session.customer with
    | some tid, some cid =>
        match w.execute d.faults.linkSession (.linkCustomer tid cid) with
        | none => []
        | some w' =>
            .linkCustomer tid cid ::
              match truthy session.subscription with
              | none => []
              | some sid =>
                  if d.faults.retrieveSubscription then []
                  else upsertCommits environ d.faults w' (d.stripe sid)
    | _, _ => []

def dispatchCommits (environ : Environ) (d : Delivery) (w : World) : List Statement :=
  match d.event.body with
  | .checkoutSessionCompleted session => linkCommits environ d w session
  | .subscriptionCreated data => upsertCommits environ d.faults w data
  | .subscriptionUpdated data => upsertCommits environ d.faults w data
  | .subscriptionDeleted cid => w.commits d.faults.downgrade (.downgradeToSandbox cid)
  | .invoicePaymentFailed cid =>
      w.commits d.faults.setStatus (.setStatusByCustomer cid "past_due" d.clock.now)
  | .invoicePaid cid =>
      w.commits d.faults.setStatus (.setStatusByCustomer cid "active" d.clock.now)
  | .invoiceCreated _ => []
  | .unhandled _ => []

def deliveryCommits (environ : Environ) (d : Delivery) (w : World) : List Statement :=
  if isEventProcessed d.faults.isEventProcessed w d.event.id then []
  else dispatchCommits environ d w

/-- The rows after a list of statements. -/
def runStatements (rows : List SubscriptionRow) (sts : List Statement) :
    List SubscriptionRow :=
  exec (fun rows st => st.run rows) rows sts

/-- `w'` is `w` after the statements `sts`, invoice items aside. -/
structure Wrote (w : World) (sts : List Statement) (w' : World) : Prop where
  rows : w'.subscriptions = runStatements w.subscriptions sts
  tenants : w'.tenants = w.tenants
  overageSettings : w'.overageSettings = w.overageSettings
  usageCounters : w'.usageCounters = w.usageCounters
  processedEvents : w'.processedEvents = w.processedEvents

theorem Wrote.refl (w : World) : Wrote w [] w := ⟨rfl, rfl, rfl, rfl, rfl⟩

theorem Wrote.cons {w w' w'' : World} {fails : Bool} {st : Statement} {sts : List Statement}
    (h : w.execute fails st = some w') (hw : Wrote w' sts w'') :
    Wrote w (st :: sts) w'' := by
  obtain ⟨-, hrows, htenants, hoverage, hcounters, hprocessed, -⟩ := World.execute_eq_some h
  refine ⟨?_, hw.tenants.trans htenants, hw.overageSettings.trans hoverage,
    hw.usageCounters.trans hcounters, hw.processedEvents.trans hprocessed⟩
  rw [hw.rows, hrows]
  rfl

theorem wrote_execute (w : World) (fails : Bool) (st : Statement) :
    Wrote w (w.commits fails st) ((w.execute fails st).getD w) := by
  rw [World.commits]
  cases h : w.execute fails st with
  | none => exact Wrote.refl w
  | some w' => exact Wrote.cons h (Wrote.refl w')

theorem wrote_upsertSubscription (environ : Environ) (f : Faults) (w : World)
    (data : SubscriptionData) :
    Wrote w (upsertCommits environ f w data) (upsertSubscription environ f w data).world := by
  rw [upsertSubscription, upsertCommits]
  cases upsertParams environ data with
  | error e => exact Wrote.refl w
  | ok p =>
      cases resolveTenant f.tenantByCustomer w data with
      | none => exact Wrote.refl w
      | some tid => exact wrote_execute w f.upsert (.upsertSubscription tid p)

theorem wrote_linkCheckoutSession (environ : Environ) (d : Delivery) (w : World)
    (session : CheckoutSession) :
    Wrote w (linkCommits environ d w session)
      (linkCheckoutSession environ d w session).world := by
  rw [linkCheckoutSession, linkCommits]
  by_cases hmode : session.mode ≠ "subscription"
  · rw [if_pos hmode, if_pos hmode]
    exact Wrote.refl w
  rw [if_neg hmode, if_neg hmode]
  cases truthy session.clientReferenceId with
  | none => exact Wrote.refl w
  | some tid =>
      cases truthy session.customer with
      | none => exact Wrote.refl w
      | some cid =>
          cases hlink : w.execute d.faults.linkSession (.linkCustomer tid cid) with
          | none =>
              simp only [hlink]
              exact Wrote.refl w
          | some w' =>
              simp only [hlink]
              apply Wrote.cons hlink
              cases truthy session.subscription with
              | none => exact Wrote.refl w'
              | some sid =>
                  by_cases hf : d.faults.retrieveSubscription = true
                  · simp only [hf, if_true]
                    exact Wrote.refl w'
                  · simp only [hf, Bool.false_eq_true, if_false]
                    exact wrote_upsertSubscription environ d.faults w' (d.stripe sid)

theorem wrote_reportOverageForCustomer (f : Faults) (period : Period) (w : World)
    (cid : String) : Wrote w [] (reportOverageForCustomer f period w cid).world := by
  rw [reportOverageForCustomer]
  cases overageCharge f period w cid with
  | none => exact Wrote.refl w
  | some item => cases f.invoiceItem <;> exact ⟨rfl, rfl, rfl, rfl, rfl⟩

theorem wrote_dispatchEvent (environ : Environ) (d : Delivery) (w : World) :
    Wrote w (dispatchCommits environ d w) (dispatchEvent environ d w).world := by
  rw [dispatchEvent, dispatchCommits]
  cases d.event.body with
  | checkoutSessionCompleted session => exact wrote_linkCheckoutSession environ d w session
  | subscriptionCreated data | subscriptionUpdated data =>
      exact wrote_upsertSubscription environ d.faults w data
  | subscriptionDeleted cid | invoicePaymentFailed cid | invoicePaid cid =>
      exact wrote_execute w _ _
  | invoiceCreated customer =>
      dsimp only
      cases truthy customer with
      | none => exact Wrote.refl w
      | some cid => exact wrote_reportOverageForCustomer d.faults d.clock.period w cid
  | unhandled type => exact Wrote.refl w

theorem markEventProcessed_frame (fails : Bool) (w : World) (e : Event) :
    (markEventProcessed fails w e).subscriptions = w.subscriptions ∧
    (markEventProcessed fails w e).tenants = w.tenants ∧
    (markEventProcessed fails w e).invoiceItems = w.invoiceItems := by
  rw [markEventProcessed]
  split <;> exact ⟨rfl, rfl, rfl⟩

/-- A delivery changes the subscription rows by the statements it commits and
leaves the tenants alone. -/
theorem handleWebhookEvent_rows (environ : Environ) (d : Delivery) (w : World) :
    (handleWebhookEvent environ d w).world.subscriptions =
      runStatements w.subscriptions (deliveryCommits environ d w) ∧
    (handleWebhookEvent environ d w).world.tenants = w.tenants := by
  rw [handleWebhookEvent, deliveryCommits]
  split
  · exact ⟨rfl, rfl⟩
  · have hd := wrote_dispatchEvent environ d w
    cases hr : (dispatchEvent environ d w).raised with
    | some e =>
        simp only [hr]
        exact ⟨hd.rows, hd.tenants⟩
    | none =>
        have hm := markEventProcessed_frame d.faults.markProcessed
          (dispatchEvent environ d w).world d.event
        simp only [hr]
        exact ⟨hm.1.trans hd.rows, hm.2.1.trans hd.tenants⟩

def deliver (environ : Environ) (w : World) (d : Delivery) : World :=
  (handleWebhookEvent environ d w).world

theorem hasProcessed_deliver (environ : Environ) {w : World} {d : Delivery} {id : String}
    (hid : d.event.id ≠ id) (h : w.hasProcessed id = false) :
    (deliver environ w d).hasProcessed id = false := by
  have hdispatch : (dispatchEvent environ d w).world.hasProcessed id = false := by
    rw [World.hasProcessed, (wrote_dispatchEvent environ d w).processedEvents]
    exact h
  rw [deliver, handleWebhookEvent]
  split
  · exact h
  · cases hr : (dispatchEvent environ d w).raised with
    | some e => simpa only [hr] using hdispatch
    | none =>
        simp only [hr, markEventProcessed]
        split
        · exact hdispatch
        · simpa [World.hasProcessed, hid] using hdispatch

/-- The clock reading a statement binds is the time of the step it runs in. -/
def Statement.ReadAt (now : Int) : Statement → Prop
  | .setStatusByCustomer _ _ t => t = now
  | _ => True

/-- One step commits nothing, one statement, or a link and then an upsert. -/
def CommitShape (now : Int) (sts : List Statement) : Prop :=
  sts = [] ∨ (∃ st, st.ReadAt now ∧ sts = [st]) ∨
    ∃ tid cid tid' p, sts = [.linkCustomer tid cid, .upsertSubscription tid' p]

theorem commits_cases (w : World) (fails : Bool) (st : Statement) :
    w.commits fails st = [] ∨ w.commits fails st = [st] := by
  rw [World.commits]
  split
  · exact .inr rfl
  · exact .inl rfl

theorem commits_shape (w : World) (fails : Bool) {now : Int} {st : Statement}
    (hnow : st.ReadAt now) : CommitShape now (w.commits fails st) :=
  (commits_cases w fails st).imp_right fun h => .inl ⟨st, hnow, h⟩

theorem upsertCommits_cases (environ : Environ) (f : Faults) (w : World)
    (data : SubscriptionData) :
    upsertCommits environ f w data = [] ∨
      ∃ tid p, upsertCommits environ f w data = [.upsertSubscription tid p] := by
  rw [upsertCommits]
  split
  · rename_i p tid _ _
    exact (commits_cases w f.upsert (.upsertSubscription tid p)).imp_right
      fun h => ⟨tid, p, h⟩
  · exact .inl rfl

theorem linkCommits_shape (environ : Environ) (d : Delivery) (w : World)
    (session : CheckoutSession) (now : Int) :
    CommitShape now (linkCommits environ d w session) := by
  rw [linkCommits]
  split
  · exact .inl rfl
  split
  · rename_i tid cid _ _
    split
    · exact .inl rfl
    · rename_i w' _
      have hlink : CommitShape now [.linkCustomer tid cid] :=
        .inr (.inl ⟨.linkCustomer tid cid, trivial, rfl⟩)
      split
      · exact hlink
      · split
        · exact hlink
        · rename_i sid _ _
          rcases upsertCommits_cases environ d.faults w' (d.stripe sid) with h | ⟨tid', p, h⟩
          · rw [h]
            exact hlink
          · rw [h]
            exact .inr (.inr ⟨tid, cid, tid', p, rfl⟩)
  · exact .inl rfl

theorem deliveryCommits_shape (environ : Environ) (d : Delivery) (w : World) :
    CommitShape d.clock.now (deliveryCommits environ d w) := by
  rw [deliveryCommits, dispatchCommits]
  split
  · exact .inl rfl
  cases d.event.body with
  | checkoutSessionCompleted session => exact linkCommits_shape environ d w session _
  | subscriptionCreated data | subscriptionUpdated data =>
      exact (upsertCommits_cases environ d.faults w data).imp_right
        fun ⟨tid, p, h⟩ => .inl ⟨.upsertSubscription tid p, trivial, h⟩
  | subscriptionDeleted cid => exact commits_shape w _ trivial
  | invoicePaymentFailed cid | invoicePaid cid => exact commits_shape w _ rfl
  | invoiceCreated customer | unhandled type => exact .inl rfl

end Engramia.Billing
