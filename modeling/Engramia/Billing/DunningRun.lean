import Engramia.Billing.Dunning

/-!
Runs of webhook deliveries and admin dunning changes, with the entry times
as history. The clocks are right throughout a run exactly when every
statement it commits finds what `Statement.ClockSafe` asks for; right clocks
give each past-due tenant the seven days of grace.
-/
namespace Engramia.Billing

open Engramia.Library

/-- The statement `change_dunning_state` commits, if it gets that far. -/
def dunningCommits (fails : Bool) (w : World) (tid state : String) : List Statement :=
  if state ∉ validDunningStates then []
  else if fails then []
  else
    match w.rowOfTenant tid with
    | none => []
    | some _ => w.commits fails (.changeDunningState tid state)

inductive DunningOp where
  | deliver (d : Delivery)
  | changeDunning (now : Int) (fails : Bool) (tid state : String)

def DunningOp.now : DunningOp → Int
  | .deliver d => d.clock.now
  | .changeDunning now _ _ _ => now

def DunningOp.world (environ : Environ) (w : World) : DunningOp → World
  | .deliver d => (handleWebhookEvent environ d w).world
  | .changeDunning _ fails tid state => (changeDunningState fails w tid state).1

/-- The statements the operation commits, in order. -/
def DunningOp.commits (environ : Environ) (w : World) : DunningOp → List Statement
  | .deliver d => deliveryCommits environ d w
  | .changeDunning _ fails tid state => dunningCommits fails w tid state

/-- The rows and the entry times after one statement. -/
def trackStatement (now : Int) :
    List SubscriptionRow × EntryTimes → Statement → List SubscriptionRow × EntryTimes :=
  withHistory (fun rows st => st.run rows) fun rows entered st =>
    enteredAfter now rows (st.run rows) entered

structure DunningState where
  world : World
  entered : EntryTimes

def dunningStep (environ : Environ) (s : DunningState) (op : DunningOp) : DunningState :=
  { world := op.world environ s.world
    entered := (exec (trackStatement op.now) (s.world.subscriptions, s.entered)
      (op.commits environ s.world)).2 }

/-- Every statement the operation is about to commit is safe where it runs. -/
def DunningOp.ClockSafe (environ : Environ) (s : DunningState) (op : DunningOp) : Prop :=
  AllSteps (fun rows st => st.run rows) Statement.ClockSafe s.world.subscriptions
    (op.commits environ s.world)

instance (environ : Environ) (s : DunningState) (op : DunningOp) :
    Decidable (op.ClockSafe environ s) :=
  inferInstanceAs (Decidable (AllSteps _ _ _ _))

/-- A past-due tenant is admitted for seven days from the entry time. -/
def FullGrace (s : DunningState) : Prop :=
  ∀ r ∈ s.world.subscriptions, r.status = "past_due" →
    ∃ t, s.entered r.tenantId = some t ∧
      ∀ now, checkSubscriptionActive now (getSubscription {} s.world r.tenantId) = .ok () ↔
        now < t + 7 * microsPerDay

def DunningRight (s : DunningState) : Prop :=
  ClocksRight s.world.subscriptions s.entered ∧ FullGrace s

theorem changeDunningState_rows (fails : Bool) (w : World) (tid state : String) :
    (changeDunningState fails w tid state).1.subscriptions =
      runStatements w.subscriptions (dunningCommits fails w tid state) := by
  rw [changeDunningState, dunningCommits]
  split
  · rfl
  split
  · rfl
  cases w.rowOfTenant tid with
  | none => rfl
  | some row =>
      have hrows := (wrote_execute w fails (.changeDunningState tid state)).rows
      cases hexec : w.execute fails (.changeDunningState tid state) with
      | none => simpa only [hexec, Option.getD_none] using hrows
      | some w' => simpa only [hexec, Option.getD_some] using hrows

theorem DunningOp.world_rows (environ : Environ) (w : World) (op : DunningOp) :
    (op.world environ w).subscriptions =
      runStatements w.subscriptions (op.commits environ w) := by
  cases op with
  | deliver d => exact (handleWebhookEvent_rows environ d w).1
  | changeDunning now fails tid state => exact changeDunningState_rows fails w tid state

theorem DunningOp.commits_shape (environ : Environ) (w : World) (op : DunningOp) :
    CommitShape op.now (op.commits environ w) := by
  cases op with
  | deliver d => exact deliveryCommits_shape environ d w
  | changeDunning now fails tid state =>
      change CommitShape now (dunningCommits fails w tid state)
      rw [dunningCommits]
      split
      · exact .inl rfl
      split
      · exact .inl rfl
      split
      · exact .inl rfl
      · have hnow : (Statement.changeDunningState tid state).ReadAt now := trivial
        exact Billing.commits_shape w fails hnow

section Step
variable {rows : List SubscriptionRow} {entered : EntryTimes} {now : Int}

theorem tenantUnique_link (hu : TenantUnique rows) (tid cid : String) :
    TenantUnique ((Statement.linkCustomer tid cid).run rows) := by
  rcases insertOnConflict_cases (onTenant tid) (.setCustomer cid)
      ((defaultRow tid (some cid)).setStatus "incomplete") rows with ⟨_, _, _, heq⟩ | ⟨hno, heq⟩
  · rw [Statement.run, heq]
    exact tenantUnique_updateWhere hu fun _ => rfl
  · rw [Statement.run, heq]
    refine uniqueOn_append_singleton.mpr ⟨hu, ?_⟩
    intro r hr htid
    have hon : onTenant tid r = true := onTenant_iff.mpr (Option.some.inj htid)
    rw [hno r hr] at hon
    cases hon

theorem clocksRight_commits_iff (hu : TenantUnique rows) (h : ClocksRight rows entered)
    {sts : List Statement} (hshape : CommitShape now sts) :
    ClocksRight (exec (trackStatement now) (rows, entered) sts).1
        (exec (trackStatement now) (rows, entered) sts).2 ↔
      AllSteps (fun rows st => st.run rows) Statement.ClockSafe rows sts := by
  rcases hshape with rfl | ⟨st, hnow, rfl⟩ | ⟨tid, cid, tid', p, rfl⟩
  · exact ⟨fun _ => trivial, fun _ => h⟩
  · have hstep := clocksRight_run_iff hu h st hnow
    exact ⟨fun h' => ⟨hstep.mp h', trivial⟩, fun h' => hstep.mpr h'.1⟩
  · have hlinkNow : (Statement.linkCustomer tid cid).ReadAt now := trivial
    have hupsertNow : (Statement.upsertSubscription tid' p).ReadAt now := trivial
    have hlink := (clocksRight_run_iff hu h _ hlinkNow).mpr trivial
    have hstep := clocksRight_run_iff (tenantUnique_link hu tid cid) hlink _ hupsertNow
    exact ⟨fun h' => ⟨trivial, hstep.mp h', trivial⟩, fun h' => hstep.mpr h'.2.1⟩

theorem dunningStep_iff (environ : Environ) (s : DunningState) (op : DunningOp)
    (h : ClocksRight s.world.subscriptions s.entered) :
    ClocksRight (dunningStep environ s op).world.subscriptions
        (dunningStep environ s op).entered ↔ op.ClockSafe environ s := by
  have hrows : (exec (trackStatement op.now) (s.world.subscriptions, s.entered)
      (op.commits environ s.world)).1 = (op.world environ s.world).subscriptions := by
    rw [op.world_rows]
    exact exec_withHistory_fst _ _ _ _
  rw [DunningOp.ClockSafe, ← clocksRight_commits_iff s.world.valid.tenantUnique h
    (op.commits_shape environ s.world), hrows]
  exact Iff.rfl

theorem fullGrace_of_clocksRight {s : DunningState}
    (h : ClocksRight s.world.subscriptions s.entered) : FullGrace s := by
  intro r hr hdue
  have hclock := h r hr
  obtain ⟨text, hsome⟩ := Option.ne_none_iff_exists'.mp (hclock.runs_iff.mpr hdue)
  have hentry := hclock.since_entry hdue
  rw [hsome] at hentry
  obtain ⟨t, ht, rfl⟩ := Option.map_eq_some_iff.mp hentry.symm
  refine ⟨t, ht, fun now => ?_⟩
  rw [getSubscription_of_row (World.rowOfTenant_eq_some.mpr ⟨hr, rfl⟩)]
  apply checkSubscriptionActive_grace
  · simp [SubscriptionRow.toSubscription, hdue]
  · exact hsome

end Step

/-- The dunning clocks stay right, and with them the grace periods full,
exactly in the runs whose steps are all safe. -/
theorem dunningRight_run_iff (environ : Environ) {s : DunningState}
    (h : ClocksRight s.world.subscriptions s.entered) (ops : List DunningOp) :
    Always (dunningStep environ) DunningRight s ops ↔
      AllSteps (dunningStep environ) (DunningOp.ClockSafe environ) s ops := by
  apply always_iff_allSteps _ ⟨h, fullGrace_of_clocksRight h⟩
  intro s op hright
  rw [← dunningStep_iff environ s op hright.1]
  exact ⟨fun h => h.1, fun h => ⟨h, fullGrace_of_clocksRight h⟩⟩

instance (entered : EntryTimes) (r : SubscriptionRow) : Decidable (DunningClock entered r) :=
  decidable_of_iff
    ((r.pastDueSince ≠ none ↔ r.status = "past_due") ∧
      (r.status = "past_due" → r.pastDueSince = (entered r.tenantId).map IsoText.instant))
    ⟨fun h => ⟨h.1, h.2⟩, fun h => ⟨h.runs_iff, h.since_entry⟩⟩

instance (rows : List SubscriptionRow) (entered : EntryTimes) :
    Decidable (ClocksRight rows entered) :=
  inferInstanceAs (Decidable (∀ r ∈ rows, DunningClock entered r))

/-- `acme` pays in good order before anything happens. -/
def acmeDunning : DunningState := ⟨acmePaidWorld, fun _ => none⟩

theorem dunningRight_run_acme :
    Always (dunningStep fun _ => "") DunningRight acmeDunning
      [.deliver (acmeDelivery "evt_1" 0 (.invoicePaymentFailed "cus_1")),
       .deliver (acmeDelivery "evt_2" microsPerDay (.invoicePaid "cus_1"))] :=
  (dunningRight_run_iff (fun _ => "") (by decide) _).mpr (by decide +kernel)

/-- The first failure is followed by an active subscription update and, a
month later, by a second failure: the second cycle starts with the clock of
the first and the tenant is blocked at once. -/
theorem dunning_clock_goes_stale :
    let ops : List DunningOp :=
      [.deliver (acmeDelivery "evt_1" 0 (.invoicePaymentFailed "cus_1")),
       .deliver (acmeDelivery "evt_2" microsPerDay
        (.subscriptionUpdated (acmeData "active"))),
       .deliver (acmeDelivery "evt_3" (30 * microsPerDay) (.invoicePaymentFailed "cus_1"))]
    let s := exec (dunningStep fun _ => "") acmeDunning ops
    ClocksRight acmeDunning.world.subscriptions acmeDunning.entered ∧
      ¬ Always (dunningStep fun _ => "") DunningRight acmeDunning ops ∧
      s.entered "acme" = some (30 * microsPerDay) ∧
      checkSubscriptionActive (30 * microsPerDay) (getSubscription {} s.world "acme") =
        .error paymentRequired := by
  refine ⟨by decide, ?_, by decide +kernel, by decide +kernel⟩
  intro h
  have hclocks := h.last.1
  revert hclocks
  decide +kernel

end Engramia.Billing
