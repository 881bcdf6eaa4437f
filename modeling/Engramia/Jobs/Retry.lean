import Engramia.Jobs.Holding

/-!
The admin retry. It makes a finished job pending again and clears its schedule, but keeps the
attempts and the expiry of the job's earlier life, which the claim and the reaper look at. A
retried job is executed when its attempts are not used up and the execution ends by the old
expiry. A failed job has used up its attempts.
-/
namespace Engramia.Jobs
open Engramia.Library

section Definitions
variable {τ J : Type}

inductive RetryResponse (τ J : Type) where
  | notFound
  | already (status : JobStatus)
  | requeued (job : Job τ J)

/-- The columns `retry_job` sets. -/
def Job.requeue (r : Job τ J) : Job τ J :=
  { r with
    status := .pending
    error := none
    startedAt := none
    completedAt := none
    scheduledAt := none }

theorem Job.requeue_id (r : Job τ J) : r.requeue.id = r.id := rfl

theorem Job.expire_id (now : τ) (r : Job τ J) : (r.expire now).id = r.id := rfl

/-- `retry_job` -/
def JobService.retryJob (s : JobService τ J) (id : String) :
    JobService τ J × RetryResponse τ J :=
  match s.jobs.row? id with
  | none => (s, .notFound)
  | some r =>
      if r.status = .pending ∨ r.status = .running then (s, .already r.status)
      else
        ({ s with jobs := s.jobs.update (fun r => r.id = id) Job.requeue Job.requeue_id },
          .requeued r.requeue)

/-- An execution of a job from its claim to its result, with the ticks of the reaper while
the job is pending, claimed and running. -/
structure Attempt (τ J : Type) where
  worker : Nat
  batch : Nat
  executor : Bool
  locked : String → Bool
  claimedAt : τ
  finishedAt : τ
  result : J
  pendingTicks : List τ
  claimedTicks : List τ
  runningTicks : List τ

variable [LinearOrder τ] (a : Attempt τ J)

def Attempt.claim : List (Action τ J) :=
  a.pendingTicks.map .reap ++ [.poll a.worker a.batch a.executor a.claimedAt a.locked]

def Attempt.start (id : String) : List (Action τ J) :=
  a.claimedTicks.map .reap ++ [.work a.worker id .dispatch]

def Attempt.finish (id : String) : List (Action τ J) :=
  a.runningTicks.map .reap ++ [.work a.worker id (.returned a.result a.finishedAt none)]

def Attempt.actions (id : String) : List (Action τ J) :=
  a.claim ++ (a.start id ++ a.finish id)

/-- The worker is free, the row is not locked, no other pending job is ahead of it, and the
reaper ticks before the execution ends. -/
structure Attempt.Next (s : JobService τ J) (id : String) : Prop where
  idle : s.idle a.worker = true
  batch : 1 ≤ a.batch
  unlocked : a.locked id = false
  ahead : ∀ r, s.jobs.row? id = some r → ∀ r' ∈ s.jobs.rows, r'.status = .pending →
    a.locked r'.id = false → r'.id ≠ id → r.createdAt < r'.createdAt
  ticks : ∀ now ∈ a.pendingTicks ++ a.claimedTicks ++ a.runningTicks, now ≤ a.finishedAt

def Unexpired (id : String) (s : JobService τ J) : Prop :=
  ∀ r, s.jobs.row? id = some r → r.status ≠ .expired

/-- The job is completed with the result of the execution and was never expired. -/
structure Attempt.Executes (s : JobService τ J) (id : String) : Prop where
  unexpired : Always step (Unexpired id) s (a.actions id)
  completed : ∃ r, (exec step s (a.actions id)).jobs.row? id = some r ∧
    r.status = .completed ∧ r.result = some a.result

end Definitions

section Requeue
variable {τ J : Type} {s s' : JobService τ J} {id : String} {r : Job τ J}

theorem retryJob_requeued (h : s.retryJob id = (s', .requeued r)) :
    s'.jobs.row? id = some r ∧ s'.inFlight = s.inFlight ∧
      r.status = .pending ∧ r.scheduledAt = none := by
  rw [JobService.retryJob] at h
  cases hrow : s.jobs.row? id with
  | none =>
      rw [hrow] at h
      cases h
  | some r₀ =>
      rw [hrow] at h
      dsimp only at h
      by_cases hopen : r₀.status = .pending ∨ r₀.status = .running
      · rw [if_pos hopen] at h
        cases h
      · rw [if_neg hopen] at h
        cases h
        refine ⟨?_, rfl, rfl, rfl⟩
        refine (Table.row?_update_of_some hrow Job.requeue_id).trans ?_
        simp [(Table.row?_eq_some.mp hrow).2]

end Requeue

section Ticks
variable {τ J : Type} [LinearOrder τ] {s : JobService τ J} {id : String} {r : Job τ J}
  {ticks : List τ}

/-- The reaper leaves a job that is not running or has not reached its expiry. -/
def Spared (now : τ) (r : Job τ J) : Prop :=
  r.status = .running → ∀ expires, r.expiresAt = some expires → now ≤ expires

theorem row?_reap (hr : s.jobs.row? id = some r) {now : τ} (hspared : Spared now r) :
    (s.reap now).jobs.row? id = some r := by
  refine (Table.row?_update_of_some hr (Job.expire_id now)).trans ?_
  by_cases hrun : r.status = .running
  · cases hexp : r.expiresAt with
    | none => simp
    | some expires => simp [not_lt.mpr (hspared hrun expires hexp)]
  · simp [hrun]

theorem pending_of_reap {now : τ} {r' : Job τ J} (h : r' ∈ (s.reap now).jobs.rows)
    (hpending : r'.status = .pending) : r' ∈ s.jobs.rows := by
  obtain ⟨r, hr, rfl⟩ := List.mem_map.mp h
  by_cases hp : r.status = .running ∧ r.expiresAt.any (· < now) = true
  · rw [if_pos (decide_eq_true hp)] at hpending
    cases hpending
  · rw [if_neg fun h => hp (of_decide_eq_true h)]
    exact hr

theorem reaps_spec (hr : s.jobs.row? id = some r) (hspared : ∀ now ∈ ticks, Spared now r) :
    (exec step s (ticks.map .reap)).jobs.row? id = some r ∧
      (exec step s (ticks.map .reap)).inFlight = s.inFlight ∧
      ∀ r' ∈ (exec step s (ticks.map .reap)).jobs.rows, r'.status = .pending →
        r' ∈ s.jobs.rows := by
  induction ticks generalizing s with
  | nil => exact ⟨hr, rfl, fun r' hr' _ => hr'⟩
  | cons now ticks ih =>
      rw [List.forall_mem_cons] at hspared
      have hafter : (step s (.reap now)).jobs.row? id = some r := row?_reap hr hspared.1
      obtain ⟨hrow, hflight, hpending⟩ := ih hafter hspared.2
      refine ⟨hrow, hflight, ?_⟩
      intro r' hr' hp
      exact pending_of_reap (hpending r' hr' hp) hp

theorem unexpired_reaps (hr : s.jobs.row? id = some r) (hstatus : r.status ≠ .expired)
    (hspared : ∀ now ∈ ticks, Spared now r) :
    Always step (Unexpired id) s (ticks.map .reap) := by
  have hhere : Unexpired id s := by
    intro r' hr'
    rw [hr] at hr'
    cases hr'
    exact hstatus
  induction ticks generalizing s with
  | nil => exact hhere
  | cons now ticks ih =>
      rw [List.forall_mem_cons] at hspared
      have hafter : (step s (.reap now)).jobs.row? id = some r := row?_reap hr hspared.1
      refine ⟨hhere, ih hafter hspared.2 ?_⟩
      intro r' hr'
      rw [hafter] at hr'
      cases hr'
      exact hstatus

end Ticks

section Turns
variable {τ J : Type} {s : JobService τ J} {id : String} {r : Job τ J} {worker : Nat}

/-- The worker has the job in hand, and may start it when it has only claimed it. -/
def InHand (s : JobService τ J) (worker : Nat) (id : String) (phase : Phase) : Prop :=
  ∃ e, s.holder worker id = some e ∧ e.phase = phase ∧
    (phase = .claimed → e.mayStart s.inFlight = true)

theorem inHand_congr {s' : JobService τ J} {phase : Phase} (h : s'.inFlight = s.inFlight) :
    InHand s' worker id phase ↔ InHand s worker id phase := by
  rw [InHand, InHand, JobService.holder, JobService.holder, h]

theorem exists_holder {e : Execution J} (he : e ∈ s.inFlight) (hworker : e.worker = worker)
    (hid : e.job.id = id) :
    ∃ e', s.holder worker id = some e' ∧ e' ∈ s.inFlight ∧ e'.worker = worker ∧
      e'.job.id = id := by
  cases hholder : s.holder worker id with
  | none =>
      have hnot := List.find?_eq_none.mp hholder e he
      simp [hworker, hid] at hnot
  | some e' => exact ⟨e', rfl, JobService.holder_eq_some hholder⟩

theorem work_eq {e : Execution J} {event : WorkEvent τ J} {outcome : Option (Outcome τ J)}
    {after : After} (he : s.holder worker id = some e)
    (hadv : e.advance s.inFlight event = some (outcome, after)) :
    s.work worker id event =
      { jobs := JobService.writeOutcome s.jobs id outcome
        inFlight := s.inFlight.filterMap (after.move worker id) } := by
  rw [JobService.work.eq_def, he]
  simp only [hadv]

theorem dispatch_spec (h : InHand s worker id .claimed) :
    (s.work worker id .dispatch).jobs = s.jobs ∧
      InHand (s.work worker id .dispatch) worker id .dispatched := by
  obtain ⟨e, he, hphase, hstart⟩ := h
  obtain ⟨hmem, hworker, hid⟩ := JobService.holder_eq_some he
  have hadv : e.advance s.inFlight (.dispatch : WorkEvent τ J) =
      some (none, .next .dispatched) := if_pos ⟨hphase, hstart rfl⟩
  rw [work_eq he hadv]
  refine ⟨rfl, ?_⟩
  have hmoved : ({ e with phase := .dispatched } : Execution J) ∈
      s.inFlight.filterMap ((After.next .dispatched).move worker id) :=
    List.mem_filterMap.mpr ⟨e, hmem, if_pos ⟨hworker, hid⟩⟩
  obtain ⟨e', hholder, he', hworker', hid'⟩ := exists_holder
    (s :=
      { jobs := s.jobs
        inFlight := s.inFlight.filterMap ((After.next .dispatched).move worker id) })
    hmoved hworker hid
  refine ⟨e', hholder, ?_, fun hclaimed => by cases hclaimed⟩
  cases After.mem_moved he' with
  | inl hother => exact absurd ⟨hworker', hid'⟩ hother.2
  | inr hnext =>
      obtain ⟨x, _, phase, heq, _, rfl⟩ := hnext
      cases heq
      rfl

theorem returned_spec (h : InHand s worker id .dispatched) (hr : s.jobs.row? id = some r)
    (result : J) (now : τ) :
    (s.work worker id (.returned result now none)).jobs.row? id =
      some ((Outcome.completed result now).set r) := by
  obtain ⟨e, he, hphase, _⟩ := h
  have hadv : e.advance s.inFlight (.returned result now none) =
      some (some (.completed result now), .leave) := if_pos hphase
  rw [work_eq he hadv]
  exact JobService.row?_writeOutcome_self hr _

variable [LinearOrder τ]

theorem mem_selected_of_ahead {batch : Nat} {now : τ} {locked : String → Bool}
    (hr : s.jobs.row? id = some r) (hpoll : JobService.pollable now r = true)
    (hunlocked : locked id = false) (hbatch : 1 ≤ batch)
    (hahead : ∀ r' ∈ s.jobs.rows, r'.status = .pending → locked r'.id = false → r'.id ≠ id →
      r.createdAt < r'.createdAt) : id ∈ s.selected batch now locked := by
  obtain ⟨hmem, hid⟩ := Table.row?_eq_some.mp hr
  have htotal : Std.Total fun a b : Job τ J => a.createdAt ≤ b.createdAt :=
    ⟨fun a b => le_total _ _⟩
  have htrans : IsTrans (Job τ J) fun a b => a.createdAt ≤ b.createdAt :=
    ⟨fun _ _ _ => le_trans⟩
  have hsorted := List.pairwise_insertionSort (fun a b : Job τ J => a.createdAt ≤ b.createdAt)
    (s.jobs.rows.filter fun r => JobService.pollable now r && !locked r.id)
  have hin (x : Job τ J) := List.mem_insertionSort
    (fun a b : Job τ J => a.createdAt ≤ b.createdAt)
    (l := s.jobs.rows.filter fun r => JobService.pollable now r && !locked r.id) (x := x)
  rw [JobService.selected]
  generalize (s.jobs.rows.filter fun r => JobService.pollable now r && !locked r.id).insertionSort
    (fun a b => a.createdAt ≤ b.createdAt) = sorted at hsorted hin
  have hrin : r ∈ sorted := by
    rw [hin, List.mem_filter, hpoll, hid, hunlocked]
    exact ⟨hmem, rfl⟩
  cases sorted with
  | nil => cases hrin
  | cons first rest =>
      have hfirst : first.id = id := by
        by_contra hne
        have hfilter := List.mem_filter.mp ((hin first).mp List.mem_cons_self)
        rw [Bool.and_eq_true, Bool.not_eq_true'] at hfilter
        have hlt := hahead first hfilter.1 (JobService.pollable_iff.mp hfilter.2.1).1
          hfilter.2.2 hne
        have hrest : r ∈ rest := (List.mem_cons.mp hrin).resolve_left fun heq => hne (heq ▸ hid)
        exact absurd (List.rel_of_pairwise_cons hsorted hrest) (not_le.mpr hlt)
      apply List.mem_map.mpr
      refine ⟨first, ?_, hfirst⟩
      cases batch with
      | zero => omega
      | succ n => exact List.mem_cons_self

/-- The claim of the first pending job by a free worker. -/
theorem poll_spec {batch : Nat} (executor : Bool) {now : τ} {locked : String → Bool}
    (hidle : s.idle worker = true) (hr : s.jobs.row? id = some r)
    (hselected : id ∈ s.selected batch now locked) :
    (s.poll worker batch executor now locked).jobs.row? id = some (r.claim now) ∧
      InHand (s.poll worker batch executor now locked) worker id .claimed := by
  have hclaimed : id ∈ s.claimedIds batch now locked := JobService.mem_claimedIds.mpr hselected
  constructor
  · rw [JobService.row?_poll worker executor hr, if_pos hclaimed]
  · have hfree : ∀ x ∈ s.inFlight, x.worker ≠ worker := by
      intro x hx
      exact of_decide_eq_true (List.all_eq_true.mp hidle x hx)
    have hnew : ∃ e ∈ (s.poll worker batch executor now locked).inFlight,
        e.worker = worker ∧ e.job.id = id := by
      obtain ⟨hmem, hid⟩ := Table.row?_eq_some.mp hr
      have hrow : r.claim now ∈
          s.jobs.returning (fun r => r.id ∈ s.selected batch now locked) (Job.claim now) :=
        List.mem_map.mpr ⟨r, List.mem_filter.mpr ⟨hmem, by simpa [hid] using hselected⟩, rfl⟩
      exact ⟨_, List.mem_append_right _ (List.mem_map.mpr ⟨_, hrow, rfl⟩), rfl, hid⟩
    have hphase : ∀ x ∈ (s.poll worker batch executor now locked).inFlight,
        x.worker = worker → x.phase = .claimed := by
      intro x hx hworker
      cases JobService.mem_poll worker executor hx with
      | inl hold => exact absurd hworker (hfree x hold)
      | inr hnew => exact hnew.2
    obtain ⟨e, he, hworker, hid⟩ := hnew
    obtain ⟨e', hholder, he', hworker', hid'⟩ := exists_holder he hworker hid
    refine ⟨e', hholder, hphase e' he' hworker', fun _ => ?_⟩
    rw [Execution.mayStart, Bool.or_eq_true]
    right
    rw [List.all_eq_true]
    intro x hx
    by_cases hx' : x.worker = worker
    · simp [hphase x hx hx']
    · simp [hworker', hx']

end Turns

section Attempts
variable {τ J : Type} [LinearOrder τ] {s : JobService τ J} {id : String} {r : Job τ J}
  {a : Attempt τ J}

omit [LinearOrder τ] in
theorem unexpired_of_row (hr : s.jobs.row? id = some r) (hstatus : r.status ≠ .expired) :
    Unexpired id s := by
  intro r' hr'
  rw [hr] at hr'
  cases hr'
  exact hstatus

theorem unexpired_segment {ticks : List τ} {b : Action τ J} (hr : s.jobs.row? id = some r)
    (hstatus : r.status ≠ .expired) (hspared : ∀ now ∈ ticks, Spared now r)
    (hafter : Unexpired id (step (exec step s (ticks.map .reap)) b)) :
    Always step (Unexpired id) s (ticks.map .reap ++ [b]) := by
  have hticks := unexpired_reaps hr hstatus hspared
  exact always_append.mpr ⟨hticks, hticks.last, hafter⟩

theorem claim_run (hr : s.jobs.row? id = some r) (hpending : r.status = .pending)
    (hscheduled : r.scheduledAt = none) (hleft : r.attempts < r.maxAttempts)
    (hnext : a.Next s id) :
    (exec step s a.claim).jobs.row? id = some (r.claim a.claimedAt) ∧
      InHand (exec step s a.claim) a.worker id .claimed ∧
      Always step (Unexpired id) s a.claim := by
  have hspared : ∀ now ∈ a.pendingTicks, Spared now r := by
    intro now _ hrun
    rw [hpending] at hrun
    cases hrun
  obtain ⟨hrow, hflight, hrows⟩ := reaps_spec hr hspared
  have hidle : (exec step s (a.pendingTicks.map .reap)).idle a.worker = true := by
    rw [JobService.idle, hflight]
    exact hnext.idle
  have hpoll : JobService.pollable a.claimedAt r = true := by
    rw [JobService.pollable_iff, hscheduled]
    exact ⟨hpending, hleft, .inl rfl⟩
  have hselected : id ∈ (exec step s (a.pendingTicks.map .reap)).selected a.batch a.claimedAt
      a.locked := by
    apply mem_selected_of_ahead hrow hpoll hnext.unlocked hnext.batch
    intro r' hr' hp
    exact hnext.ahead r hr r' (hrows r' hr' hp) hp
  obtain ⟨hclaimed, hhand⟩ := poll_spec a.executor hidle hrow hselected
  have hstep : exec step s a.claim = (exec step s (a.pendingTicks.map .reap)).poll a.worker
      a.batch a.executor a.claimedAt a.locked := by
    rw [Attempt.claim, exec_append]
    exact if_pos hidle
  rw [hstep]
  refine ⟨hclaimed, hhand, ?_⟩
  apply unexpired_segment hr (by rw [hpending]; exact fun h => by cases h) hspared
  rw [step, if_pos hidle]
  exact unexpired_of_row hclaimed fun h => by cases h

theorem start_run (hr : s.jobs.row? id = some r) (hrun : r.status = .running)
    (hspared : ∀ now ∈ a.claimedTicks, Spared now r) (hhand : InHand s a.worker id .claimed) :
    (exec step s (a.start id)).jobs.row? id = some r ∧
      InHand (exec step s (a.start id)) a.worker id .dispatched ∧
      Always step (Unexpired id) s (a.start id) := by
  have hstatus : r.status ≠ .expired := by
    rw [hrun]
    exact fun h => by cases h
  obtain ⟨hrow, hflight, _⟩ := reaps_spec hr hspared
  obtain ⟨hjobs, hdispatched⟩ := dispatch_spec ((inHand_congr hflight).mpr hhand)
  have hafter := hrow
  rw [← hjobs] at hafter
  rw [Attempt.start, exec_append]
  exact ⟨hafter, hdispatched,
    unexpired_segment hr hstatus hspared (unexpired_of_row hafter hstatus)⟩

theorem finish_run (hr : s.jobs.row? id = some r) (hrun : r.status = .running)
    (hspared : ∀ now ∈ a.runningTicks, Spared now r)
    (hhand : InHand s a.worker id .dispatched) :
    (exec step s (a.finish id)).jobs.row? id =
        some ((Outcome.completed a.result a.finishedAt).set r) ∧
      Always step (Unexpired id) s (a.finish id) := by
  have hstatus : r.status ≠ .expired := by
    rw [hrun]
    exact fun h => by cases h
  obtain ⟨hrow, hflight, _⟩ := reaps_spec hr hspared
  have hafter := returned_spec ((inHand_congr hflight).mpr hhand) hrow a.result a.finishedAt
  rw [Attempt.finish, exec_append]
  exact ⟨hafter, unexpired_segment hr hstatus hspared
    (unexpired_of_row hafter fun h => by cases h)⟩

theorem executes_of_inTime (hr : s.jobs.row? id = some r) (hpending : r.status = .pending)
    (hscheduled : r.scheduledAt = none) (hleft : r.attempts < r.maxAttempts)
    (htime : ∀ expires, r.expiresAt = some expires → a.finishedAt ≤ expires)
    (hnext : a.Next s id) : a.Executes s id := by
  have hspared : ∀ now ∈ a.pendingTicks ++ a.claimedTicks ++ a.runningTicks,
      Spared now (r.claim a.claimedAt) :=
    fun now hnow _ expires hexpires => (hnext.ticks now hnow).trans (htime expires hexpires)
  simp only [List.forall_mem_append] at hspared
  obtain ⟨hclaimed, hhand, hfirst⟩ := claim_run hr hpending hscheduled hleft hnext
  obtain ⟨hrow, hdispatched, hsecond⟩ := start_run hclaimed rfl hspared.1.2 hhand
  obtain ⟨hdone, hthird⟩ := finish_run hrow rfl hspared.2 hdispatched
  refine ⟨always_append.mpr ⟨hfirst, always_append.mpr ⟨hsecond, hthird⟩⟩, ?_⟩
  refine ⟨(Outcome.completed a.result a.finishedAt).set (r.claim a.claimedAt), ?_, rfl, rfl⟩
  rw [Attempt.actions, exec_append, exec_append]
  exact hdone

/-- The only job that is not locked, and a new worker. -/
def soleAttempt (worker : Nat) (id : String) (now : τ) (result : J) (runningTicks : List τ) :
    Attempt τ J where
  worker := worker
  batch := 1
  executor := false
  locked k := k ≠ id
  claimedAt := now
  finishedAt := now
  result := result
  pendingTicks := []
  claimedTicks := []
  runningTicks := runningTicks

omit [LinearOrder τ] in
theorem exists_unused (l : List (Execution J)) : ∃ worker, ∀ x ∈ l, x.worker < worker := by
  induction l with
  | nil => exact ⟨0, fun x hx => by cases hx⟩
  | cons x l ih =>
      obtain ⟨worker, hworker⟩ := ih
      refine ⟨max worker (x.worker + 1), ?_⟩
      intro y hy
      cases List.mem_cons.mp hy with
      | inl heq =>
          rw [heq]
          omega
      | inr hmem =>
          have hlt := hworker y hmem
          omega

theorem exists_next (s : JobService τ J) (id : String) (now : τ) (result : J) :
    ∃ worker, s.idle worker = true ∧
      ∀ ticks : List τ, (∀ t ∈ ticks, t ≤ now) →
        (soleAttempt worker id now result ticks).Next s id := by
  obtain ⟨worker, hworker⟩ := exists_unused s.inFlight
  have hidle : s.idle worker = true := by
    rw [JobService.idle, List.all_eq_true]
    intro x hx
    apply decide_eq_true
    exact Nat.ne_of_lt (hworker x hx)
  refine ⟨worker, hidle, ?_⟩
  intro ticks hticks
  refine ⟨hidle, Nat.le_refl 1, by simp [soleAttempt], ?_, by simpa [soleAttempt] using hticks⟩
  intro r _ r' _ _ hlocked hne
  simp [soleAttempt, hne] at hlocked

theorem left_of_executes (hr : s.jobs.row? id = some r) (hpending : r.status = .pending)
    {worker : Nat} {now : τ} {result : J} (hidle : s.idle worker = true)
    (h : (soleAttempt worker id now result []).Executes s id) : r.attempts < r.maxAttempts := by
  by_contra hused
  have hnot : id ∉ s.claimedIds 1 now fun k => k ≠ id := by
    intro hmem
    obtain ⟨r', hr', hpoll⟩ := JobService.mem_selected (JobService.mem_claimedIds.mp hmem)
    rw [hr] at hr'
    cases hr'
    exact hused (JobService.pollable_iff.mp hpoll).2.1
  have hstep : step s (.poll worker 1 false now fun k => k ≠ id) =
      s.poll worker 1 false now fun k => k ≠ id := if_pos hidle
  have hrow : (s.poll worker 1 false now fun k => k ≠ id).jobs.row? id = some r := by
    rw [JobService.row?_poll worker false hr, if_neg hnot]
  have hholder : (s.poll worker 1 false now fun k => k ≠ id).holder worker id = none := by
    rw [JobService.holder, List.find?_eq_none]
    intro e he
    have hfree := List.all_eq_true.mp hidle
    cases JobService.mem_poll worker false he with
    | inl hold =>
        have hworker := of_decide_eq_true (hfree e hold)
        simp [hworker]
    | inr hnew =>
        have hid : e.job.id ≠ id := fun heq => hnot (heq ▸ hnew.1)
        simp [hid]
  have hwork : ∀ event : WorkEvent τ J,
      (s.poll worker 1 false now fun k => k ≠ id).work worker id event =
        s.poll worker 1 false now fun k => k ≠ id := by
    intro event
    rw [JobService.work.eq_def, hholder]
  obtain ⟨r', hr', hcompleted, _⟩ := h.completed
  have hfinal : exec step s ((soleAttempt worker id now result []).actions id) =
      s.poll worker 1 false now fun k => k ≠ id := by
    have hrun : exec step s ((soleAttempt worker id now result []).actions id) =
        ((step s (.poll worker 1 false now fun k => k ≠ id)).work worker id .dispatch).work
          worker id (.returned result now none) := rfl
    rw [hrun, hstep, hwork, hwork]
  rw [hfinal, hrow] at hr'
  cases hr'
  rw [hpending] at hcompleted
  cases hcompleted

/-- A tick of the reaper at the end of an execution that took too long. -/
theorem inTime_of_executes (hr : s.jobs.row? id = some r) (hpending : r.status = .pending)
    (hscheduled : r.scheduledAt = none) (hleft : r.attempts < r.maxAttempts) {worker : Nat}
    {finish : τ} {result : J} (hnext : (soleAttempt worker id finish result [finish]).Next s id)
    (h : (soleAttempt worker id finish result [finish]).Executes s id) :
    ∀ expires, r.expiresAt = some expires → finish ≤ expires := by
  intro expires hexpires
  by_contra hlate
  obtain ⟨hclaimed, hhand, _⟩ := claim_run hr hpending hscheduled hleft hnext
  obtain ⟨hrow, _, _⟩ := start_run (a := soleAttempt worker id finish result [finish]) hclaimed rfl
    (fun now hnow => by cases hnow) hhand
  have hticked := (always_append.mp (always_append.mp h.unexpired).2).2.2.head
  have hreaped := Table.row?_update_of_some hrow (Job.expire_id finish)
    (p := fun r => r.status = .running ∧ r.expiresAt.any (· < finish))
  have hlt : expires < finish := not_le.mp hlate
  have hany : (r.expiresAt.any fun e => decide (e < finish)) = true := by simp [hexpires, hlt]
  rw [if_pos (decide_eq_true ⟨rfl, hany⟩)] at hreaped
  exact hticked _ hreaped rfl

theorem executes_iff (hr : s.jobs.row? id = some r) (hpending : r.status = .pending)
    (hscheduled : r.scheduledAt = none) (finish : τ) :
    (∀ a : Attempt τ J, a.Next s id → a.finishedAt = finish → a.Executes s id) ↔
      r.attempts < r.maxAttempts ∧ ∀ expires, r.expiresAt = some expires → finish ≤ expires := by
  constructor
  · intro h
    obtain ⟨worker, hidle, hnext⟩ := exists_next s id finish r.params
    have hsole := hnext [] fun t ht => by cases ht
    have hleft := left_of_executes hr hpending hidle (h _ hsole rfl)
    have hticked := hnext [finish] fun t ht => le_of_eq (List.mem_singleton.mp ht)
    exact ⟨hleft, inTime_of_executes hr hpending hscheduled hleft hticked (h _ hticked rfl)⟩
  · intro h a hnext hfinish
    subst hfinish
    exact executes_of_inTime hr hpending hscheduled h.1 h.2 hnext

end Attempts

section Runs
variable {τ J : Type}

inductive OpsAction (τ J : Type) where
  | service (a : Action τ J)
  | retry (id : String)

/-- The service together with the admin operation. -/
def opsStep [LinearOrder τ] (s : JobService τ J) : OpsAction τ J → JobService τ J
  | .service a => step s a
  | .retry id => (s.retryJob id).1

/-- What a worker has in hand has been claimed as often as it says, and a job that failed has
used up its attempts. -/
structure Counted (s : JobService τ J) : Prop where
  claims : ∀ e ∈ s.inFlight, ∃ r, s.jobs.row? e.job.id = some r ∧
    e.job.attempts ≤ r.attempts ∧ e.job.maxAttempts = r.maxAttempts
  failed : ∀ k r, s.jobs.row? k = some r → r.status = .failed → r.maxAttempts ≤ r.attempts

variable {s : JobService τ J}

/-- A change of the table that takes no attempt back and fails no job. -/
theorem Counted.of_table (h : Counted s) {jobs : JobTable τ J}
    (hrows : ∀ k r, s.jobs.row? k = some r → ∃ r', jobs.row? k = some r' ∧
      r.attempts ≤ r'.attempts ∧ r.maxAttempts = r'.maxAttempts)
    (hfailed : ∀ k r', jobs.row? k = some r' → r'.status = .failed →
      s.jobs.row? k = some r') : Counted { s with jobs := jobs } := by
  constructor
  · intro e he
    obtain ⟨r, hr, hattempts, hmax⟩ := h.claims e he
    obtain ⟨r', hr', hle, heq⟩ := hrows _ r hr
    exact ⟨r', hr', hattempts.trans hle, hmax.trans heq⟩
  · intro k r' hr' hstatus
    exact h.failed k r' (hfailed k r' hr' hstatus) hstatus

/-- A statement that keeps the counters and sets another status than that of a failure. -/
theorem Counted.update (h : Counted s) {p : Job τ J → Bool} {f : Job τ J → Job τ J}
    (hid : ∀ r, (f r).id = r.id)
    (hcounts : ∀ r, (f r).attempts = r.attempts ∧ (f r).maxAttempts = r.maxAttempts)
    (hstatus : ∀ r, (f r).status ≠ .failed) :
    Counted { s with jobs := s.jobs.update p f hid } := by
  apply h.of_table
  · intro k r hr
    refine ⟨_, Table.row?_update_of_some hr hid, ?_⟩
    by_cases hp : p r = true
    · rw [if_pos hp, (hcounts r).1, (hcounts r).2]
      exact ⟨Nat.le_refl _, rfl⟩
    · rw [if_neg hp]
      exact ⟨Nat.le_refl _, rfl⟩
  · intro k r' hr' hfailed
    rw [Table.row?_update] at hr'
    obtain ⟨r, hr, rfl⟩ := Option.map_eq_some_iff.mp hr'
    by_cases hp : p r = true
    · rw [if_pos hp] at hfailed
      exact absurd hfailed (hstatus r)
    · rw [if_neg hp]
      exact hr

theorem Counted.submit (h : Counted s) (sub : Submission τ J) : Counted (s.submit sub) := by
  rw [JobService.submit]
  split
  · cases hins : s.jobs.insert sub.row with
    | none => exact h
    | some jobs =>
        apply h.of_table
        · intro k r hr
          refine ⟨r, ?_, Nat.le_refl _, rfl⟩
          rw [Table.row?_insert hins, if_neg]
          · exact hr
          · intro hk
            have hfresh := Table.insert_fresh hins
            rw [hk, hr] at hfresh
            cases hfresh
        · intro k r' hr' hfailed
          rw [Table.row?_insert hins] at hr'
          split at hr'
          · cases hr'
            cases hfailed
          · exact hr'
  · exact h

/-- Only an execution that used up its attempts writes a failure. -/
theorem Execution.exhausted_of_failed {e : Execution J} {inFlight : List (Execution J)}
    {event : WorkEvent τ J} {o : Outcome τ J} {after : After}
    (hadv : e.advance inFlight event = some (some o, after)) (ho : o.status = .failed) :
    e.job.maxAttempts ≤ e.job.attempts := by
  cases event with
  | dispatch =>
      simp only [Execution.advance] at hadv
      split at hadv <;> cases hadv
  | returned result now fault =>
      simp only [Execution.advance] at hadv
      split at hadv
      · cases fault <;> cases hadv
        cases ho
      · cases hadv
  | raised error =>
      simp only [Execution.advance] at hadv
      split at hadv <;> cases hadv
  | timedOut now fault =>
      simp only [Execution.advance] at hadv
      split at hadv
      · cases fault <;> cases hadv
        cases ho
      · cases hadv
  | drained =>
      simp only [Execution.advance] at hadv
      split at hadv <;> cases hadv
  | settle now scheduled fault =>
      simp only [Execution.advance] at hadv
      split at hadv
      · cases fault with
        | none =>
            by_cases hlast : e.job.attempts ≥ e.job.maxAttempts
            · exact hlast
            · simp only [if_neg hlast] at hadv
              cases hadv
              cases ho
        | some error => cases hadv
      · cases hadv

theorem Outcome.set_counts (o : Outcome τ J) (r : Job τ J) :
    (o.set r).attempts = r.attempts ∧ (o.set r).maxAttempts = r.maxAttempts := by
  cases o <;> exact ⟨rfl, rfl⟩

theorem Counted.work (h : Counted s) (worker : Nat) (id : String) (event : WorkEvent τ J) :
    Counted (s.work worker id event) := by
  cases JobService.work_cases s worker id event with
  | inl hsame =>
      rw [hsame.1]
      exact h
  | inr hmoved =>
      obtain ⟨e, outcome, after, hholder, hadv, hwork⟩ := hmoved
      obtain ⟨he, _, hid⟩ := JobService.holder_eq_some hholder
      obtain ⟨r₀, hr₀, hattempts, hmax⟩ := h.claims e he
      rw [hid] at hr₀
      have hrows : ∀ k r, s.jobs.row? k = some r →
          ∃ r', (JobService.writeOutcome s.jobs id outcome).row? k = some r' ∧
            r.attempts ≤ r'.attempts ∧ r.maxAttempts = r'.maxAttempts := by
        intro k r hr
        by_cases hk : k = id
        · subst hk
          refine ⟨_, JobService.row?_writeOutcome_self hr outcome, ?_⟩
          cases outcome with
          | none => exact ⟨Nat.le_refl _, rfl⟩
          | some o =>
              rw [Option.elim_some, (o.set_counts r).1, (o.set_counts r).2]
              exact ⟨Nat.le_refl _, rfl⟩
        · rw [JobService.row?_writeOutcome_other _ hk]
          exact ⟨r, hr, Nat.le_refl _, rfl⟩
      rw [hwork]
      constructor
      · intro x hx
        have hold : ∃ y ∈ s.inFlight, x.job = y.job := by
          cases After.mem_moved hx with
          | inl hother => exact ⟨x, hother.1, rfl⟩
          | inr hnext =>
              obtain ⟨y, hy, phase, _, _, rfl⟩ := hnext
              exact ⟨y, hy, rfl⟩
        obtain ⟨y, hy, hjob⟩ := hold
        obtain ⟨r, hr, hle, heq⟩ := h.claims y hy
        obtain ⟨r', hr', hle', heq'⟩ := hrows _ r hr
        rw [hjob]
        exact ⟨r', hr', hle.trans hle', heq.trans heq'⟩
      · intro k r' hr' hfailed
        by_cases hk : k = id
        · subst hk
          rw [JobService.row?_writeOutcome_self hr₀] at hr'
          cases hr'
          cases outcome with
          | none => exact h.failed k r₀ hr₀ hfailed
          | some o =>
              rw [Option.elim_some] at hfailed ⊢
              rw [o.set_status] at hfailed
              have hused := Execution.exhausted_of_failed hadv hfailed
              rw [(o.set_counts r₀).1, (o.set_counts r₀).2]
              omega
        · rw [JobService.row?_writeOutcome_other _ hk] at hr'
          exact h.failed k r' hr' hfailed

theorem Counted.poll [LinearOrder τ] (h : Counted s) (worker batch : Nat) (executor : Bool)
    (now : τ) (locked : String → Bool) : Counted (s.poll worker batch executor now locked) := by
  constructor
  · intro e he
    cases List.mem_append.mp he with
    | inl hold =>
        obtain ⟨r, hr, hle, heq⟩ := h.claims e hold
        refine ⟨_, JobService.row?_poll worker executor hr, ?_⟩
        split
        · exact ⟨hle.trans (Nat.le_succ _), heq⟩
        · exact ⟨hle, heq⟩
    | inr hnew =>
        obtain ⟨r', hr', hentry⟩ := List.mem_map.mp hnew
        obtain ⟨r, hr, hclaim⟩ := List.mem_map.mp hr'
        obtain ⟨hmem, hselected⟩ := List.mem_filter.mp hr
        subst hclaim
        subst hentry
        have hclaimed : r.id ∈ s.claimedIds batch now locked :=
          JobService.mem_claimedIds.mpr (of_decide_eq_true hselected)
        have hrow : s.jobs.row? r.id = some r := Table.row?_eq_some.mpr ⟨hmem, rfl⟩
        refine ⟨r.claim now, ?_, Nat.le_refl _, rfl⟩
        exact (JobService.row?_poll worker executor hrow).trans (congrArg some (if_pos hclaimed))
  · intro k r' hr' hfailed
    cases hr : s.jobs.row? k with
    | none =>
        have hnone := Table.row?_update s.jobs (Job.claim_id now) k
          (p := fun r => r.id ∈ s.selected batch now locked)
        rw [hr] at hnone
        have hr'' := hr'.symm.trans hnone
        cases hr''
    | some r =>
        rw [JobService.row?_poll worker executor hr] at hr'
        split at hr'
        · cases hr'
          cases hfailed
        · cases hr'
          exact h.failed k _ hr hfailed

theorem Counted.opsStep [LinearOrder τ] (h : Counted s) (a : OpsAction τ J) :
    Counted (opsStep s a) := by
  cases a with
  | service a =>
      cases a with
      | submit sub => exact h.submit sub
      | poll worker batch executor now locked =>
          rw [Jobs.opsStep, step]
          split
          · exact h.poll worker batch executor now locked
          · exact h
      | work worker id event => exact h.work worker id event
      | cancel id tenantId projectId now =>
          exact h.update _ (fun _ => ⟨rfl, rfl⟩) fun _ hcancelled => by cases hcancelled
      | reap now => exact h.update _ (fun _ => ⟨rfl, rfl⟩) fun _ hexpired => by cases hexpired
  | retry id =>
      rw [Jobs.opsStep, JobService.retryJob]
      split
      · exact h
      · split
        · exact h
        · exact h.update _ (fun _ => ⟨rfl, rfl⟩) fun _ hpending => by cases hpending

end Runs

section Retries
variable {τ J : Type} [LinearOrder τ]

def noJobs : JobService τ J := ⟨⟨[], List.nodup_nil⟩, []⟩

/-- In every reachable state, a retried job is executed by the next claim, however the reaper
ticks, if and only if its attempts are not used up and the execution ends by its old expiry.
The attempts of a job that failed are used up. -/
theorem retry_executed_iff (run : List (OpsAction τ J)) {id : String} {s : JobService τ J}
    {r : Job τ J} (h : (exec opsStep noJobs run).retryJob id = (s, .requeued r)) (finish : τ) :
    ((∀ a : Attempt τ J, a.Next s id → a.finishedAt = finish → a.Executes s id) ↔
      r.attempts < r.maxAttempts ∧
        ∀ expires, r.expiresAt = some expires → finish ≤ expires) ∧
    (∀ r₀, (exec opsStep noJobs run).jobs.row? id = some r₀ → r₀.status = .failed →
      ¬ r.attempts < r.maxAttempts) := by
  obtain ⟨hrow, _, hpending, hscheduled⟩ := retryJob_requeued h
  refine ⟨executes_iff hrow hpending hscheduled finish, ?_⟩
  intro r₀ hr₀ hfailed
  have hstart : Counted (noJobs : JobService τ J) :=
    ⟨fun _ he => (List.not_mem_nil he).elim, fun _ _ hr => by cases hr⟩
  have hcounted : Counted (exec opsStep noJobs run) :=
    (always_of_step (fun _ a hs => hs.opsStep a) hstart run).last
  have hused := hcounted.failed id r₀ hr₀ hfailed
  rw [JobService.retryJob, hr₀] at h
  dsimp only at h
  rw [if_neg (by simp [hfailed])] at h
  cases h
  exact Nat.not_lt.mpr hused

end Retries

section Sample

def agingJob : Submission Nat Unit where
  id := "job-1"
  tenantId := "acme"
  projectId := "default"
  operation := "aging"
  params := ()
  now := 0
  expires := 3600
  maxExecutionSeconds := none

/-- A claim whose execution raises. -/
def failingTurn (now : Nat) : List (OpsAction Nat Unit) :=
  [.service (.poll 1 1 false now fun _ => false), .service (.work 1 "job-1" .dispatch),
    .service (.work 1 "job-1" (.raised "boom")),
    .service (.work 1 "job-1" (.settle now (now + 8) none))]

def cancelledRun : List (OpsAction Nat Unit) :=
  [.service (.submit agingJob), .service (.cancel "job-1" "acme" "default" 5)]

def cancelledRow : Job Nat Unit :=
  (agingJob.row.cancel 5).requeue

def failedRun : List (OpsAction Nat Unit) :=
  .service (.submit agingJob) :: (failingTurn 10 ++ failingTurn 20 ++ failingTurn 30)

/-- A job that was cancelled is executed after its retry, up to its expiry. -/
theorem cancelled_retry_executed :
    (soleAttempt 1 "job-1" 3600 () [3600]).Executes
      (⟨⟨[cancelledRow], List.nodup_singleton _⟩, []⟩ : JobService Nat Unit) "job-1" := by
  have hretry : (exec opsStep noJobs cancelledRun).retryJob "job-1" =
      (⟨⟨[cancelledRow], List.nodup_singleton _⟩, []⟩, .requeued cancelledRow) := rfl
  have hexecutes := (retry_executed_iff cancelledRun hretry 3600).1.mpr
    ⟨by decide, fun expires hexpires => by cases hexpires; exact Nat.le_refl _⟩
  refine hexecutes (soleAttempt 1 "job-1" 3600 () [3600]) ?_ rfl
  refine ⟨by decide, by decide, by decide, ?_, by decide⟩
  intro r _ r' hr' _ hlocked hne
  simp [soleAttempt, hne] at hlocked

/-- A job that failed is pending again, and no claim takes it. -/
theorem failed_retry_left :
    ∃ (s : JobService Nat Unit) (r : Job Nat Unit) (a : Attempt Nat Unit),
      (exec opsStep noJobs failedRun).retryJob "job-1" = (s, .requeued r) ∧
        a.Next s "job-1" ∧ a.finishedAt ≤ 3600 ∧ ¬ a.Executes s "job-1" := by
  refine ⟨_, _, soleAttempt 1 "job-1" 40 () [], rfl, ?_, by decide, ?_⟩
  · refine ⟨by decide, by decide, by decide, ?_, fun now hnow => by cases hnow⟩
    intro r _ r' hr' _ hlocked hne
    simp [soleAttempt, hne] at hlocked
  · intro h
    obtain ⟨r, hr, hstatus, _⟩ := h.completed
    revert hstatus
    cases hr
    decide

end Sample

end Engramia.Jobs
