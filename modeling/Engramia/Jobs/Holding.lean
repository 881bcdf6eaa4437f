import Engramia.Jobs.Service

/-!
What a worker may rely on while it has a job in hand: nobody else has it, and
its row is running unless the reaper or its own time limit expired it. Both
hold in every state of every run that starts with nothing in hand.
-/
namespace Engramia.Jobs

open Engramia.Library

section Moves
variable {J : Type} {after : After} {worker : Nat} {id : String} {x x' : Execution J}
  {l : List (Execution J)}

theorem After.move_job (h : after.move worker id x = some x') : x'.job = x.job := by
  rw [After.move.eq_def] at h
  split at h
  · cases after with
    | next phase =>
        cases h
        rfl
    | leave | escape => cases h
  · split at h
    · cases h
    · cases h
      rfl

theorem After.mem_moved (h : x' ∈ l.filterMap (after.move worker id)) :
    (x' ∈ l ∧ ¬ (x'.worker = worker ∧ x'.job.id = id)) ∨
    (∃ x ∈ l, ∃ phase, after = .next phase ∧ (x.worker = worker ∧ x.job.id = id) ∧
      x' = { x with phase := phase }) := by
  obtain ⟨x, hx, hon⟩ := List.mem_filterMap.mp h
  rw [After.move.eq_def] at hon
  split at hon
  · rename_i hself
    cases after with
    | next phase =>
        cases hon
        exact .inr ⟨x, hx, phase, rfl, hself, rfl⟩
    | leave | escape => cases hon
  · rename_i hother
    split at hon
    · cases hon
    · cases hon
      exact .inl ⟨hx, hother⟩

theorem After.moved_ids (after : After) (worker : Nat) (id : String)
    (l : List (Execution J)) :
    ((l.filterMap (after.move worker id)).map (·.job.id)).Sublist (l.map (·.job.id)) := by
  induction l with
  | nil => exact List.Sublist.slnil
  | cons x l ih =>
      rw [List.filterMap_cons]
      cases hon : after.move worker id x with
      | none => exact ih.cons _
      | some x' =>
          simp only [List.map_cons, After.move_job hon]
          exact ih.cons_cons _

end Moves

section Advance
variable {τ J : Type} {e : Execution J} {inFlight : List (Execution J)}
  {event : WorkEvent τ J} {outcome : Option (Outcome τ J)} {after : After}

/-- An execution that stays in hand has written nothing but its expiry. -/
theorem Execution.advance_next {phase : Phase}
    (h : e.advance inFlight event = some (outcome, .next phase)) :
    phase ≠ .claimed ∧ ∀ o, outcome = some o → o.status = .expired := by
  cases event with
  | dispatch =>
      simp only [Execution.advance] at h
      split at h <;> cases h
      exact ⟨by simp, by simp⟩
  | returned result now fault =>
      simp only [Execution.advance] at h
      split at h
      · cases fault <;> cases h
        exact ⟨by simp, by simp⟩
      · cases h
  | raised error =>
      simp only [Execution.advance] at h
      split at h <;> cases h
      exact ⟨by simp, by simp⟩
  | timedOut now fault =>
      simp only [Execution.advance] at h
      split at h
      · cases fault with
        | none =>
            cases h
            refine ⟨by simp, ?_⟩
            rintro o ⟨⟩
            rfl
        | some error =>
            cases h
            exact ⟨by simp, by simp⟩
      · cases h
  | drained =>
      simp only [Execution.advance] at h
      split at h <;> cases h
  | settle now scheduled fault =>
      simp only [Execution.advance] at h
      split at h
      · cases fault with
        | none => by_cases hlast : e.job.attempts ≥ e.job.maxAttempts <;> simp [hlast] at h
        | some error => cases h
      · cases h

end Advance

namespace JobService
variable {τ J : Type} {s : JobService τ J}

theorem holder_eq_some {worker : Nat} {id : String} {e : Execution J}
    (h : s.holder worker id = some e) :
    e ∈ s.inFlight ∧ e.worker = worker ∧ e.job.id = id :=
  ⟨List.mem_of_find?_eq_some h, by simpa using List.find?_some h⟩

theorem work_cases (s : JobService τ J) (worker : Nat) (id : String)
    (event : WorkEvent τ J) :
    (s.work worker id event = s ∧
      ∀ e, s.holder worker id = some e → e.advance s.inFlight event = none) ∨
    ∃ e outcome after, s.holder worker id = some e ∧
      e.advance s.inFlight event = some (outcome, after) ∧
      s.work worker id event =
        { jobs := writeOutcome s.jobs id outcome
          inFlight := s.inFlight.filterMap (after.move worker id) } := by
  rw [work.eq_def]
  cases hholder : s.holder worker id with
  | none => exact .inl ⟨rfl, by simp⟩
  | some e =>
      cases hadv : e.advance s.inFlight event with
      | none => exact .inl ⟨by simp only [hadv], by simpa using hadv⟩
      | some r => exact .inr ⟨e, r.1, r.2, rfl, hadv, by simp only [hadv]⟩

theorem row?_writeOutcome_self {jobs : JobTable τ J} {id : String} {r : Job τ J}
    (hr : jobs.row? id = some r) (outcome : Option (Outcome τ J)) :
    (writeOutcome jobs id outcome).row? id =
      some (outcome.elim r fun o => o.set r) := by
  cases outcome with
  | none => exact hr
  | some o =>
      rw [writeOutcome, Table.row?_update_of_some hr, Option.elim_some]
      simp [(Table.row?_eq_some.mp hr).2]

theorem row?_writeOutcome_other (jobs : JobTable τ J) {id k : String} (hk : k ≠ id)
    (outcome : Option (Outcome τ J)) :
    (writeOutcome jobs id outcome).row? k = jobs.row? k := by
  cases outcome with
  | none => rfl
  | some o =>
      rw [writeOutcome, Table.row?_update]
      cases hr : jobs.row? k with
      | none => rfl
      | some r => simp [(Table.row?_eq_some.mp hr).2, hk]

theorem mem_selected [LinearOrder τ] {batch : Nat} {now : τ} {locked : String → Bool}
    {id : String} (h : id ∈ s.selected batch now locked) :
    ∃ r, s.jobs.row? id = some r ∧ pollable now r = true := by
  obtain ⟨r, hr, rfl⟩ := List.mem_map.mp h
  have hsorted := (List.mem_insertionSort _).mp (List.mem_of_mem_take hr)
  obtain ⟨hmem, hp⟩ := List.mem_filter.mp hsorted
  rw [Bool.and_eq_true] at hp
  exact ⟨r, Table.row?_eq_some.mpr ⟨hmem, rfl⟩, hp.1⟩

theorem pollable_iff [LinearOrder τ] {now : τ} {r : Job τ J} :
    pollable now r = true ↔ r.status = .pending ∧ r.attempts < r.maxAttempts ∧
      (r.scheduledAt.isNone ∨ r.scheduledAt.any (· ≤ now)) := by
  simp [pollable]

section Poll
variable [LinearOrder τ] (s) (worker batch : Nat) (executor : Bool) (now : τ)
  (locked : String → Bool)

/-- The ids of the rows the poll claims. -/
def claimedIds : List String :=
  (s.jobs.rows.filter fun r => r.id ∈ s.selected batch now locked).map (·.id)

theorem claimedIds_nodup : (s.claimedIds batch now locked).Nodup :=
  s.jobs.unique.sublist (List.filter_sublist.map _)

variable {s batch now locked}

theorem mem_claimedIds {id : String} :
    id ∈ s.claimedIds batch now locked ↔
      id ∈ s.selected batch now locked := by
  rw [claimedIds, List.mem_map]
  constructor
  · rintro ⟨r, hr, rfl⟩
    simpa using (List.mem_filter.mp hr).2
  · intro h
    obtain ⟨r, hr, -⟩ := mem_selected h
    obtain ⟨hmem, hid⟩ := Table.row?_eq_some.mp hr
    exact ⟨r, List.mem_filter.mpr ⟨hmem, by simpa [hid] using h⟩, hid⟩

theorem row?_poll {k : String} {r : Job τ J} (hr : s.jobs.row? k = some r) :
    (s.poll worker batch executor now locked).jobs.row? k =
      some (if k ∈ s.claimedIds batch now locked then r.claim now else r) := by
  obtain rfl := (Table.row?_eq_some.mp hr).2
  refine (Table.row?_update_of_some hr (Job.claim_id now)).trans ?_
  simp only [decide_eq_true_eq, mem_claimedIds]

theorem poll_ids :
    (s.poll worker batch executor now locked).inFlight.map (·.job.id) =
      s.inFlight.map (·.job.id) ++ s.claimedIds batch now locked := by
  rw [poll, List.map_append, List.map_map]
  exact congrArg _ (s.jobs.returning_keys (Job.claim_id now))

theorem mem_poll {e : Execution J}
    (he : e ∈ (s.poll worker batch executor now locked).inFlight) :
    e ∈ s.inFlight ∨ (e.job.id ∈ s.claimedIds batch now locked ∧ e.phase = .claimed) := by
  rcases List.mem_append.mp he with he | he
  · exact .inl he
  · obtain ⟨r', hr', rfl⟩ := List.mem_map.mp he
    refine .inr ⟨?_, rfl⟩
    rw [claimedIds, ← s.jobs.returning_keys (Job.claim_id now)]
    exact List.mem_map_of_mem hr'

end Poll

end JobService

theorem Outcome.set_status {τ J : Type} (o : Outcome τ J) (r : Job τ J) :
    (o.set r).status = o.status := by
  cases o <;> rfl

/-- The statuses the row of a job in hand can have. -/
def JobStatus.InHand (status : JobStatus) : Prop :=
  status = .running ∨ status = .expired

theorem JobStatus.InHand.ne_pending {status : JobStatus} (h : status.InHand) :
    status ≠ .pending := by
  rcases h with rfl | rfl <;> simp

theorem JobStatus.InHand.of_finished {status : JobStatus} (h : status.InHand)
    (hfin : status.finished = true) : status = .expired := by
  rcases h with rfl | rfl
  · cases hfin
  · rfl

structure Held {τ J : Type} (s : JobService τ J) : Prop where
  distinct : (s.inFlight.map (·.job.id)).Nodup
  live : ∀ e ∈ s.inFlight, ∃ r, s.jobs.row? e.job.id = some r ∧ r.status.InHand

namespace Held
variable {τ J : Type} {s : JobService τ J}

theorem nothing_inFlight (jobs : JobTable τ J) : Held (J := J) ⟨jobs, []⟩ :=
  ⟨List.nodup_nil, fun _ he => nomatch he⟩

theorem only (h : Held s) {x e : Execution J} (hx : x ∈ s.inFlight) (he : e ∈ s.inFlight)
    (hid : x.job.id = e.job.id) : x = e :=
  List.inj_on_of_nodup_map h.distinct hx he hid

/-- A change of the table that keeps every running or expired row one of
these keeps what the workers rely on. -/
theorem of_table (h : Held s) {jobs : JobTable τ J}
    (hrow : ∀ k r, s.jobs.row? k = some r → r.status.InHand →
      ∃ r', jobs.row? k = some r' ∧ r'.status.InHand) :
    Held { s with jobs := jobs } where
  distinct := h.distinct
  live e he := by
    obtain ⟨r, hr, hin⟩ := h.live e he
    exact hrow _ r hr hin

theorem submit (h : Held s) (sub : Submission τ J) : Held (s.submit sub) := by
  rw [JobService.submit]
  split
  · cases hins : s.jobs.insert sub.row with
    | none => exact h
    | some jobs =>
        apply h.of_table
        intro k r hr hin
        refine ⟨r, ?_, hin⟩
        have hne : sub.row.id ≠ k := by
          rintro rfl
          rw [Table.insert_fresh hins] at hr
          cases hr
        rw [Table.row?_insert hins, if_neg hne]
        exact hr
  · exact h

theorem cancel (h : Held s) (id tenantId projectId : String) (now : τ) :
    Held (s.cancel id tenantId projectId now) := by
  apply h.of_table
  intro k r hr hin
  refine ⟨_, Table.row?_update_of_some hr _, ?_⟩
  split
  · rename_i hp
    have hpending : r.status = .pending := by
      simp only [decide_eq_true_eq] at hp
      exact hp.2.2.2
    exact absurd hpending hin.ne_pending
  · exact hin

theorem work (h : Held s) (worker : Nat) (id : String) (event : WorkEvent τ J) :
    Held (s.work worker id event) := by
  rcases s.work_cases worker id event with ⟨hsame, -⟩ | ⟨e, outcome, after, hholder, hadv, hwork⟩
  · rw [hsame]
    exact h
  obtain ⟨he, hworker, hid⟩ := JobService.holder_eq_some hholder
  rw [hwork]
  refine ⟨h.distinct.sublist (after.moved_ids worker id s.inFlight), ?_⟩
  intro x' hx'
  rcases After.mem_moved hx' with ⟨hx, hother⟩ | ⟨x, hx, phase, rfl, ⟨-, hxid⟩, rfl⟩
  · -- another job's row is not the one the turn writes
    obtain ⟨r, hr, hin⟩ := h.live x' hx
    have hne : x'.job.id ≠ id := by
      intro heq
      have hsame := h.only hx he (heq.trans hid.symm)
      exact hother ⟨hsame ▸ hworker, heq⟩
    exact ⟨r, (JobService.row?_writeOutcome_other s.jobs hne outcome).trans hr, hin⟩
  · obtain ⟨r, hr, hin⟩ := h.live x hx
    subst hxid
    refine ⟨_, JobService.row?_writeOutcome_self hr outcome, ?_⟩
    cases outcome with
    | none => exact hin
    | some o => exact .inr ((o.set_status r).trans ((Execution.advance_next hadv).2 o rfl))

variable [LinearOrder τ]

theorem reap (h : Held s) (now : τ) : Held (s.reap now) := by
  apply h.of_table
  intro k r hr hin
  refine ⟨_, Table.row?_update_of_some hr _, ?_⟩
  split
  · exact .inr rfl
  · exact hin

theorem poll (h : Held s) (worker batch : Nat) (executor : Bool) (now : τ)
    (locked : String → Bool) : Held (s.poll worker batch executor now locked) := by
  -- what the poll claims was pending, what is in hand is not
  have hpicked (e : Execution J) (he : e ∈ s.inFlight) :
      e.job.id ∉ s.claimedIds batch now locked := by
    intro hk
    obtain ⟨r, hr, hp⟩ := JobService.mem_selected (JobService.mem_claimedIds.mp hk)
    obtain ⟨r₀, hr₀, hin⟩ := h.live e he
    rw [hr] at hr₀
    cases hr₀
    exact hin.ne_pending (JobService.pollable_iff.mp hp).1
  constructor
  · rw [JobService.poll_ids, List.nodup_append]
    refine ⟨h.distinct, s.claimedIds_nodup batch now locked, ?_⟩
    rintro a ha b hb rfl
    obtain ⟨e, he, rfl⟩ := List.mem_map.mp ha
    exact hpicked e he hb
  · intro e he
    rcases JobService.mem_poll worker executor he with he | ⟨hk, -⟩
    · obtain ⟨r, hr, hin⟩ := h.live e he
      exact ⟨r, by rw [JobService.row?_poll worker executor hr, if_neg (hpicked e he)], hin⟩
    · obtain ⟨r, hr, -⟩ := JobService.mem_selected (JobService.mem_claimedIds.mp hk)
      exact ⟨_, by rw [JobService.row?_poll worker executor hr, if_pos hk], .inl rfl⟩

/-- No step of any worker, canceller or reaper breaks what the workers rely
on. -/
theorem step (h : Held s) (a : Action τ J) : Held (Jobs.step s a) := by
  cases a with
  | submit sub => exact h.submit sub
  | poll worker batch executor now locked =>
      rw [Jobs.step]
      split
      · exact h.poll worker batch executor now locked
      · exact h
  | work worker id event => exact h.work worker id event
  | cancel id tenantId projectId now => exact h.cancel id tenantId projectId now
  | reap now => exact h.reap now

end Held

end Engramia.Jobs
