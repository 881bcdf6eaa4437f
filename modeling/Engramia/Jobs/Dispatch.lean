import Engramia.Jobs.Holding

/-!
Dispatch safety. The history of a run records each claim and each call of
`dispatch_job` by job id. Every claim raises the attempts of one row by one
and puts the job into one pair of hands, and every dispatch uses up a claim,
so a submitted job is dispatched at most three times and never by two workers
at once.
-/
namespace Engramia.Jobs

open Engramia.Library

/-- The job ids of the claims and of the dispatches so far, one entry each. -/
structure Tally where
  claims : List String
  dispatches : List String
deriving DecidableEq, Repr

namespace JobService
variable {τ J : Type}

def claims [LinearOrder τ] (s : JobService τ J) : Action τ J → List String
  | .poll worker batch _ now locked =>
      if s.idle worker then s.claimedIds batch now locked else []
  | _ => []

def dispatches (s : JobService τ J) : Action τ J → List String
  | .work worker id .dispatch =>
      match s.holder worker id with
      | some e => if e.phase = .claimed ∧ e.mayStart s.inFlight then [id] else []
      | none => []
  | _ => []

def tally [LinearOrder τ] (s : JobService τ J) (t : Tally) (a : Action τ J) : Tally where
  claims := t.claims ++ s.claims a
  dispatches := t.dispatches ++ s.dispatches a

theorem dispatches_work (s : JobService τ J) (worker : Nat) (id : String)
    (event : WorkEvent τ J) :
    s.dispatches (.work worker id event) = [] ∨
    ∃ e r, s.holder worker id = some e ∧ e.phase = .claimed ∧
      e.advance s.inFlight event = some r ∧ s.dispatches (.work worker id event) = [id] := by
  cases event with
  | dispatch =>
      cases hholder : s.holder worker id with
      | none => exact .inl (by simp only [dispatches, hholder])
      | some e =>
          simp only [dispatches, hholder, Execution.advance]
          split
          · rename_i hstart
            exact .inr ⟨e, _, rfl, hstart.1, if_pos hstart, rfl⟩
          · exact .inl rfl
  | returned _ _ _ | raised _ | timedOut _ _ | drained | settle _ _ _ => exact .inl rfl

/-- A job still waiting after a turn was waiting before, and is not the one
the turn was about. -/
theorem claimed_work {worker : Nat} {id : String} {event : WorkEvent τ J} {x : Execution J}
    {s : JobService τ J} (hx : x ∈ (s.work worker id event).inFlight)
    (hphase : x.phase = .claimed) :
    x ∈ s.inFlight ∧ ∀ e r, s.holder worker id = some e →
      e.advance s.inFlight event = some r → ¬ (x.worker = worker ∧ x.job.id = id) := by
  rcases s.work_cases worker id event with
    ⟨hsame, hno⟩ | ⟨e, outcome, after, -, hadv, hwork⟩
  · rw [hsame] at hx
    refine ⟨hx, fun e r he hr => ?_⟩
    rw [hno e he] at hr
    cases hr
  · rw [hwork] at hx
    rcases After.mem_moved hx with ⟨hmem, hother⟩ | ⟨_, _, phase, rfl, _, rfl⟩
    · exact ⟨hmem, fun _ _ _ _ => hother⟩
    · exact absurd hphase (Execution.advance_next hadv).1

theorem submit_inFlight (s : JobService τ J) (sub : Submission τ J) :
    (s.submit sub).inFlight = s.inFlight := by
  rw [submit]
  split
  · cases s.jobs.insert sub.row <;> rfl
  · rfl

end JobService

/-- What a run shows of the jobs submitted in it, `before` being the table it
started from. -/
structure DispatchSafe {τ J : Type} (before : JobTable τ J)
    (st : JobService τ J × Tally) : Prop where
  oneWorker : (st.1.inFlight.map (·.job.id)).Nodup
  bounded : ∀ k r, before.row? k = none → st.1.jobs.row? k = some r →
    r.maxAttempts = 3 ∧ st.2.dispatches.count k ≤ r.maxAttempts
  counted : ∀ k r, before.row? k = none → st.1.jobs.row? k = some r →
    r.attempts = st.2.claims.count k

/-- The row under a submitted id against the number of its claims. -/
def Accounted {τ J : Type} (claims : Nat) : Option (Job τ J) → Prop
  | none => claims = 0
  | some r => r.attempts = claims ∧ r.attempts ≤ r.maxAttempts ∧ r.maxAttempts = 3

theorem Accounted.map {τ J : Type} {claims : Nat} {row : Option (Job τ J)}
    (h : Accounted claims row) (f : Job τ J → Job τ J)
    (hf : ∀ r, (f r).attempts = r.attempts ∧ (f r).maxAttempts = r.maxAttempts) :
    Accounted claims (row.map f) := by
  cases row with
  | none => exact h
  | some r => simpa only [Option.map_some, Accounted, hf r] using h

/-- The table kept by the poll's claim and by every statement that leaves the
counters of the rows alone. -/
theorem Accounted.update {τ J : Type} {claims : Nat} {jobs : JobTable τ J} {k : String}
    (h : Accounted claims (jobs.row? k)) (p : Job τ J → Bool) {f : Job τ J → Job τ J}
    (hid : ∀ r, (f r).id = r.id)
    (hf : ∀ r, (f r).attempts = r.attempts ∧ (f r).maxAttempts = r.maxAttempts) :
    Accounted claims ((jobs.update p f hid).row? k) := by
  rw [Table.row?_update]
  apply h.map
  intro r
  split
  · exact hf r
  · exact ⟨rfl, rfl⟩

section Rows
variable {τ J : Type} {s : JobService τ J} {claims : Nat} {k : String}

theorem Accounted.submit (h : Accounted claims (s.jobs.row? k)) (sub : Submission τ J) :
    Accounted claims ((s.submit sub).jobs.row? k) := by
  rw [JobService.submit]
  split
  · cases hins : s.jobs.insert sub.row with
    | none => exact h
    | some jobs =>
        change Accounted claims (jobs.row? k)
        rw [Table.row?_insert hins]
        split
        · rename_i hk
          subst hk
          rw [Table.insert_fresh hins] at h
          exact ⟨h.symm, Nat.zero_le _, rfl⟩
        · exact h
  · exact h

theorem Accounted.work (h : Accounted claims (s.jobs.row? k)) (worker : Nat) (id : String)
    (event : WorkEvent τ J) :
    Accounted claims ((s.work worker id event).jobs.row? k) := by
  rcases s.work_cases worker id event with ⟨hsame, -⟩ | ⟨_, outcome, _, -, -, hwork⟩
  · rw [hsame]
    exact h
  · rw [hwork]
    cases outcome with
    | none => exact h
    | some o =>
        exact h.update _ (fun r => by cases o <;> rfl) fun r => by cases o <;> exact ⟨rfl, rfl⟩

theorem Accounted.poll [LinearOrder τ] (h : Accounted claims (s.jobs.row? k))
    (worker batch : Nat) (executor : Bool) (now : τ) (locked : String → Bool) :
    Accounted (claims + (s.claimedIds batch now locked).count k)
      ((s.poll worker batch executor now locked).jobs.row? k) := by
  rw [(s.claimedIds_nodup batch now locked).count]
  cases hr : s.jobs.row? k with
  | none =>
      have hno : k ∉ s.claimedIds batch now locked := by
        intro hk
        obtain ⟨r, hr', -⟩ := JobService.mem_selected (JobService.mem_claimedIds.mp hk)
        rw [hr] at hr'
        cases hr'
      rw [if_neg hno, JobService.poll, Table.row?_update, hr]
      rw [hr] at h
      exact h
  | some r =>
      rw [hr] at h
      obtain ⟨hcount, hbound, hmax⟩ := h
      rw [JobService.row?_poll worker executor hr]
      by_cases hk : k ∈ s.claimedIds batch now locked
      · obtain ⟨r', hr', hp⟩ := JobService.mem_selected (JobService.mem_claimedIds.mp hk)
        rw [hr] at hr'
        cases hr'
        obtain ⟨-, hlt, -⟩ := JobService.pollable_iff.mp hp
        rw [if_pos hk, if_pos hk]
        exact ⟨congrArg (· + 1) hcount, hlt, hmax⟩
      · rw [if_neg hk, if_neg hk]
        exact ⟨hcount, hbound, hmax⟩

end Rows

/-- The invariant behind `DispatchSafe`: a claim not yet dispatched is one the
dispatches have still to use up. -/
structure Tallied {τ J : Type} (before : JobTable τ J) (st : JobService τ J × Tally) :
    Prop where
  held : Held st.1
  rows : ∀ k, before.row? k = none →
    Accounted (st.2.claims.count k) (st.1.jobs.row? k)
  used : ∀ k, st.2.dispatches.count k ≤ st.2.claims.count k
  waiting : ∀ e ∈ st.1.inFlight, e.phase = .claimed →
    st.2.dispatches.count e.job.id < st.2.claims.count e.job.id

namespace Tallied
variable {τ J : Type} {before : JobTable τ J} {st : JobService τ J × Tally}

theorem start (before : JobTable τ J) :
    Tallied before ((⟨before, []⟩, ⟨[], []⟩) : JobService τ J × Tally) where
  held := Held.nothing_inFlight before
  rows k hk := by
    change Accounted _ (before.row? k)
    rw [hk]
    rfl
  used k := Nat.le_refl _
  waiting e he := nomatch he

theorem safe (h : Tallied before st) : DispatchSafe before st where
  oneWorker := h.held.distinct
  bounded k r hk hr := by
    have hrow := h.rows k hk
    rw [hr] at hrow
    obtain ⟨hcount, hbound, hmax⟩ := hrow
    have hused := h.used k
    exact ⟨hmax, by omega⟩
  counted k r hk hr := by
    have hrow := h.rows k hk
    rw [hr] at hrow
    exact hrow.1

/-- A dispatch finds the claim it uses up, and nobody else waits for it. -/
theorem step_work (h : Tallied before st) (worker : Nat) (id : String)
    (event : WorkEvent τ J) :
    (∀ k, (st.2.dispatches ++ st.1.dispatches (.work worker id event)).count k ≤
      st.2.claims.count k) ∧
    ∀ x ∈ (st.1.work worker id event).inFlight, x.phase = .claimed →
      (st.2.dispatches ++ st.1.dispatches (.work worker id event)).count x.job.id <
        st.2.claims.count x.job.id := by
  rcases st.1.dispatches_work worker id event with hno | ⟨e, r, hholder, hphase, hadv, hone⟩
  · rw [hno, List.append_nil]
    exact ⟨h.used, fun x hx hc => h.waiting x (JobService.claimed_work hx hc).1 hc⟩
  · obtain ⟨he, hworker, hid⟩ := JobService.holder_eq_some hholder
    have hlt := h.waiting e he hphase
    rw [hid] at hlt
    simp only [hone, List.count_append]
    constructor
    · intro k
      by_cases hk : id = k
      · subst hk
        rw [List.count_singleton_self]
        exact hlt
      · rw [List.count_singleton, if_neg (by simpa using hk)]
        exact h.used k
    · intro x hx hc
      obtain ⟨hmem, hother⟩ := JobService.claimed_work hx hc
      have hne : id ≠ x.job.id := by
        intro heq
        have hsame := h.held.only hmem he (heq.symm.trans hid.symm)
        exact hother e r hholder hadv ⟨hsame ▸ hworker, heq.symm⟩
      rw [List.count_singleton, if_neg (by simpa using hne)]
      exact h.waiting x hmem hc

variable [LinearOrder τ]

theorem step_rows (h : Tallied before st) (a : Action τ J) (k : String)
    (hk : before.row? k = none) :
    Accounted ((st.1.tally st.2 a).claims.count k) ((step st.1 a).jobs.row? k) := by
  have hrow := h.rows k hk
  rw [JobService.tally, List.count_append]
  cases a with
  | submit sub => exact hrow.submit sub
  | poll worker batch executor now locked =>
      rw [step, JobService.claims]
      split
      · exact hrow.poll worker batch executor now locked
      · exact hrow
  | work worker id event => exact hrow.work worker id event
  | cancel id tenantId projectId now =>
      exact hrow.update (f := Job.cancel now) _ (fun _ => rfl) fun _ => ⟨rfl, rfl⟩
  | reap now =>
      exact hrow.update (f := Job.expire now) _ (fun _ => rfl) fun _ => ⟨rfl, rfl⟩

theorem step (h : Tallied before st) (a : Action τ J) :
    Tallied before (withHistory Jobs.step JobService.tally st a) := by
  refine ⟨h.held.step a, h.step_rows a, ?_, ?_⟩
  · intro k
    cases a with
    | work worker id event =>
        simpa [withHistory, JobService.tally, JobService.claims] using
          (h.step_work worker id event).1 k
    | submit _ | poll _ _ _ _ _ | cancel _ _ _ _ | reap _ =>
        have hused := h.used k
        simp only [withHistory, JobService.tally, JobService.dispatches, List.append_nil,
          List.count_append]
        omega
  · cases a with
    | submit sub =>
        simpa [withHistory, JobService.tally, JobService.claims, JobService.dispatches,
          Jobs.step, JobService.submit_inFlight] using h.waiting
    | poll worker batch executor now locked =>
        intro x hx hc
        simp only [withHistory, JobService.tally, JobService.dispatches, List.append_nil,
          List.count_append, JobService.claims]
        simp only [withHistory, Jobs.step] at hx
        split at hx
        · rename_i hidle
          rw [if_pos hidle]
          rcases JobService.mem_poll worker executor hx with hx | ⟨hk, -⟩
          · have hlt := h.waiting x hx hc
            omega
          · have hused := h.used x.job.id
            have hone := List.count_pos_iff.mpr hk
            omega
        · have hlt := h.waiting x hx hc
          omega
    | work worker id event =>
        simpa [withHistory, JobService.tally, JobService.claims, Jobs.step] using
          (h.step_work worker id event).2
    | cancel _ _ _ _ | reap _ =>
        simpa [withHistory, JobService.tally, JobService.claims, JobService.dispatches,
          Jobs.step, JobService.cancel, JobService.reap] using h.waiting

end Tallied

theorem dispatch_safe {τ J : Type} [LinearOrder τ] (before : JobTable τ J)
    (run : List (Action τ J)) :
    Always (withHistory step JobService.tally) (DispatchSafe before)
      (⟨before, []⟩, ⟨[], []⟩) run :=
  Always.mono (fun _ => Tallied.safe)
    (always_of_step (fun _ a h => h.step a) (Tallied.start before) run)

end Engramia.Jobs
