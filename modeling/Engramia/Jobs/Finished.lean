import Engramia.Jobs.Holding

/-!
Finished jobs. The poll, the cancellation and the reaper only touch rows they
find pending or running; the statements that write an outcome address the row
by id alone. A finished row a worker still has in hand is one the reaper
expired, so a run changes a finished job exactly when such a worker gets to
write its outcome.
-/
namespace Engramia.Jobs

open Engramia.Library

section
variable {τ J : Type} [LinearOrder τ]

/-- The step leaves the status and the result of every finished job alone. -/
def FinishedKept (s : JobService τ J) (a : Action τ J) : Prop :=
  ∀ r ∈ s.jobs.rows, r.status.finished = true →
    ∃ r' ∈ (step s a).jobs.rows, r'.id = r.id ∧ r'.status = r.status ∧ r'.result = r.result

instance [DecidableEq J] (s : JobService τ J) (a : Action τ J) :
    Decidable (FinishedKept s a) :=
  inferInstanceAs (Decidable (∀ r ∈ s.jobs.rows, _))

/-- The event is the commit of the operation's result, or of the failure or
retry that follows an exception. -/
def Execution.commitsOutcome (e : Execution J) : WorkEvent τ J → Bool
  | .returned _ _ none => e.phase = .dispatched
  | .settle _ _ none => (e.phase matches .excepting _)
  | _ => false

/-- A worker that commits an outcome finds the job's row not yet finished. -/
def OutcomeInTime (s : JobService τ J) : Action τ J → Prop
  | .work worker id event =>
      ∀ e, s.holder worker id = some e → e.commitsOutcome event = true →
        ∀ r, s.jobs.row? id = some r → r.status.finished = false
  | _ => True

end

section Outcomes
variable {τ J : Type} {e : Execution J} {inFlight : List (Execution J)}
  {event : WorkEvent τ J}

theorem Execution.advance_of_commits (inFlight : List (Execution J))
    (h : e.commitsOutcome event = true) :
    ∃ o after, e.advance inFlight event = some (some o, after) ∧ o.status ≠ .expired := by
  cases event with
  | returned result now fault =>
      cases fault with
      | none =>
          have hphase : e.phase = .dispatched := by simpa [Execution.commitsOutcome] using h
          exact ⟨.completed result now, .leave, by simp [Execution.advance, hphase],
            by simp [Outcome.status]⟩
      | some error => cases h
  | settle now scheduled fault =>
      cases fault with
      | none =>
          cases hphase : e.phase with
          | excepting error =>
              by_cases hlast : e.job.maxAttempts ≤ e.job.attempts
              · exact ⟨.failed error now, .leave, by simp [Execution.advance, hphase, hlast],
                  by simp [Outcome.status]⟩
              · exact ⟨.pending scheduled, .leave, by simp [Execution.advance, hphase, hlast],
                  by simp [Outcome.status]⟩
          | claimed | dispatched | draining => simp [Execution.commitsOutcome, hphase] at h
      | some error => cases h
  | dispatch | raised _ | timedOut _ _ | drained => cases h

/-- Every other statement a turn commits is the expiry, which says nothing
about the result. -/
theorem Execution.outcome_of_not_commits {o : Outcome τ J} {after : After}
    (h : e.commitsOutcome event = false)
    (hadv : e.advance inFlight event = some (some o, after)) :
    ∃ error now, o = .expired error now := by
  cases event with
  | timedOut now fault =>
      simp only [Execution.advance] at hadv
      split at hadv
      · cases fault <;> cases hadv
        exact ⟨_, now, rfl⟩
      · cases hadv
  | returned result now fault =>
      cases fault with
      | none =>
          have hphase : e.phase ≠ .dispatched := by simpa [Execution.commitsOutcome] using h
          simp [Execution.advance, hphase] at hadv
      | some error =>
          simp only [Execution.advance] at hadv
          split at hadv <;> cases hadv
  | settle now scheduled fault =>
      cases hphase : e.phase with
      | excepting error =>
          cases fault with
          | none => simp [Execution.commitsOutcome, hphase] at h
          | some error => simp [Execution.advance, hphase] at hadv
      | claimed | dispatched | draining => simp [Execution.advance, hphase] at hadv
  | dispatch | raised _ | drained =>
      simp only [Execution.advance] at hadv
      split at hadv <;> cases hadv

end Outcomes

section Steps
variable {τ J : Type} {s : JobService τ J}

/-- Where a step leaves the row of `k`, in the terms of `FinishedKept`. -/
def RowKept (jobs : JobTable τ J) (r : Job τ J) : Prop :=
  ∃ r', jobs.row? r.id = some r' ∧ r'.status = r.status ∧ r'.result = r.result

theorem rowKept_iff {jobs : JobTable τ J} {r : Job τ J} :
    RowKept jobs r ↔
      ∃ r' ∈ jobs.rows, r'.id = r.id ∧ r'.status = r.status ∧ r'.result = r.result := by
  simp only [RowKept, Table.row?_eq_some, and_assoc]

theorem rowKept_update {jobs : JobTable τ J} {r : Job τ J} {p : Job τ J → Bool}
    {f : Job τ J → Job τ J} (hid : ∀ r, (f r).id = r.id) (hr : r ∈ jobs.rows)
    (hp : p r = false) : RowKept (jobs.update p f hid) r := by
  have hrow : jobs.row? r.id = some r := Table.row?_eq_some.mpr ⟨hr, rfl⟩
  refine ⟨r, ?_, rfl, rfl⟩
  rw [Table.row?_update_of_some hrow, hp]
  rfl

theorem rowKept_submit {r : Job τ J} (hr : r ∈ s.jobs.rows) (sub : Submission τ J) :
    RowKept (s.submit sub).jobs r := by
  have hrow : s.jobs.row? r.id = some r := Table.row?_eq_some.mpr ⟨hr, rfl⟩
  refine ⟨r, ?_, rfl, rfl⟩
  rw [JobService.submit]
  split
  · cases hins : s.jobs.insert sub.row with
    | none => exact hrow
    | some jobs =>
        have hne : sub.row.id ≠ r.id := by
          intro heq
          rw [← heq, Table.insert_fresh hins] at hrow
          cases hrow
        exact (Table.row?_insert hins r.id).trans ((if_neg hne).trans hrow)
  · exact hrow

theorem rowKept_work (h : Held s) {worker : Nat} {id : String} {event : WorkEvent τ J}
    (htime : OutcomeInTime s (.work worker id event)) {r : Job τ J} (hr : r ∈ s.jobs.rows)
    (hfin : r.status.finished = true) :
    RowKept (s.work worker id event).jobs r := by
  have hrow : s.jobs.row? r.id = some r := Table.row?_eq_some.mpr ⟨hr, rfl⟩
  rcases s.work_cases worker id event with
    ⟨hsame, -⟩ | ⟨e, outcome, after, hholder, hadv, hwork⟩
  · exact ⟨r, by rw [hsame, hrow], rfl, rfl⟩
  rw [hwork]
  by_cases hid : r.id = id
  · subst hid
    refine ⟨_, JobService.row?_writeOutcome_self hrow outcome, ?_⟩
    cases outcome with
    | none => exact ⟨rfl, rfl⟩
    | some o =>
        obtain ⟨he, -, heid⟩ := JobService.holder_eq_some hholder
        have hno : e.commitsOutcome event = false := by
          by_contra hyes
          have hrun := htime e hholder (by simpa using hyes) r hrow
          rw [hfin] at hrun
          cases hrun
        obtain ⟨error, now, rfl⟩ := Execution.outcome_of_not_commits hno hadv
        -- the row is one the reaper expired, and expired it stays
        obtain ⟨r₀, hr₀, hin⟩ := h.live e he
        rw [heid, hrow] at hr₀
        cases hr₀
        exact ⟨(hin.of_finished hfin).symm, rfl⟩
  · exact ⟨r, (JobService.row?_writeOutcome_other s.jobs hid outcome).trans hrow, rfl, rfl⟩

variable [LinearOrder τ]

theorem outcomeInTime_of_kept (h : Held s) {worker : Nat} {id : String}
    {event : WorkEvent τ J} (hkept : FinishedKept s (.work worker id event)) :
    OutcomeInTime s (.work worker id event) := by
  intro e hholder hcommits r hrow
  by_contra hfin
  obtain ⟨he, -, heid⟩ := JobService.holder_eq_some hholder
  obtain ⟨o, after, hadv, hstatus⟩ :=
    Execution.advance_of_commits s.inFlight hcommits
  obtain ⟨hmem, hrid⟩ := Table.row?_eq_some.mp hrow
  obtain ⟨r', hr', hsame, -⟩ := rowKept_iff.mpr (hkept r hmem (by simpa using hfin))
  obtain ⟨r₀, hr₀, hin⟩ := h.live e he
  rw [heid, hrow] at hr₀
  cases hr₀
  have hwork : (s.work worker id event).jobs = JobService.writeOutcome s.jobs id (some o) := by
    simp only [JobService.work, hholder, hadv]
  change (s.work worker id event).jobs.row? r.id = some r' at hr'
  rw [hwork, hrid, JobService.row?_writeOutcome_self hrow] at hr'
  cases hr'
  rw [Option.elim_some, o.set_status, hin.of_finished (by simpa using hfin)] at hsame
  exact hstatus hsame

theorem finishedKept_iff (h : Held s) (a : Action τ J) :
    FinishedKept s a ↔ OutcomeInTime s a := by
  constructor
  · intro hkept
    cases a with
    | work worker id event => exact outcomeInTime_of_kept h hkept
    | submit _ | poll _ _ _ _ _ | cancel _ _ _ _ | reap _ => trivial
  · intro htime r hr hfin
    apply rowKept_iff.mp
    have hstill : r.status ≠ .pending ∧ r.status ≠ .running := by
      constructor <;> intro hs <;> rw [hs] at hfin <;> cases hfin
    cases a with
    | submit sub => exact rowKept_submit hr sub
    | poll worker batch executor now locked =>
        rw [step]
        split
        · apply rowKept_update (Job.claim_id now) hr
          rw [decide_eq_false_iff_not]
          intro hk
          obtain ⟨r₀, hr₀, hp⟩ := JobService.mem_selected hk
          rw [Table.row?_eq_some.mpr ⟨hr, rfl⟩] at hr₀
          cases hr₀
          exact hstill.1 (JobService.pollable_iff.mp hp).1
        · exact rowKept_iff.mpr ⟨r, hr, rfl, rfl, rfl⟩
    | work worker id event => exact rowKept_work h htime hr hfin
    | cancel id tenantId projectId now =>
        exact rowKept_update (f := Job.cancel now) (fun _ => rfl) hr (by simp [hstill.1])
    | reap now =>
        exact rowKept_update (f := Job.expire now) (fun _ => rfl) hr (by simp [hstill.2])

end Steps

theorem finishedKept_run_iff {τ J : Type} [LinearOrder τ] (jobs : JobTable τ J)
    (run : List (Action τ J)) :
    AllSteps step FinishedKept ⟨jobs, []⟩ run ↔ AllSteps step OutcomeInTime ⟨jobs, []⟩ run :=
  allSteps_congr (P := Held) (fun _ a h => h.step a) (fun _ a h => finishedKept_iff h a)
    (Held.nothing_inFlight jobs) run

/-- The job is expired by the reaper while the worker is still at it, and
completed all the same. -/
theorem expired_job_completed :
    ¬ AllSteps step FinishedKept (⟨⟨[], List.nodup_nil⟩, []⟩ : JobService Nat String)
      [.submit
          { id := "job-1", tenantId := "acme", projectId := "default", operation := "evaluate"
            params := "{}", now := 0, expires := 3600, maxExecutionSeconds := none },
        .poll 1 1 false 3000 (fun _ => false),
        .work 1 "job-1" .dispatch,
        .reap 3700,
        .work 1 "job-1" (.returned "{}" 3800 none)] := by
  decide +kernel

end Engramia.Jobs
