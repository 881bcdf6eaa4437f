import Engramia.Jobs.Retry
import Engramia.Library.DbStamp
import Engramia.Storage.Paths

/-!
The back-off before a retry. A failed job is pending again with a schedule in ISO form, and the
claim query compares the schedule with `now()::text`. The two forms differ behind the date, so
on the day of the schedule the query passes the job over at every hour, and from the next day
on it finds it. A job is never claimed before its back-off has elapsed.

A history records for each job id the back-off of its last return to pending.
-/
namespace Engramia.Jobs
open Engramia.Library Engramia.Storage

section Definitions
variable {J : Type}

/-- A return to pending after a failed attempt, with what `strftime` makes of its end. -/
structure Backoff where
  failedAt : ℚ
  attempts : ℕ
  scheduled : UtcStamp
  scheduledFloor : scheduled.seconds = (failedAt + 2 ^ attempts).floor

/-- The instant at which the back-off has elapsed. -/
def Backoff.ends (b : Backoff) : ℚ := b.failedAt + 2 ^ b.attempts

/-- The events of a job in hand as the two clocks time them. -/
inductive ClockEvent (J : Type) where
  | dispatch
  | returned (result : J) (now : DbStamp) (fault : Option String)
  | raised (error : String)
  | timedOut (now : DbStamp) (fault : Option String)
  | drained
  | settle (now : DbStamp) (backoff : Backoff) (fault : Option String)

def ClockEvent.event : ClockEvent J → WorkEvent Text J
  | .dispatch => .dispatch
  | .returned result now fault => .returned result now.text fault
  | .raised error => .raised error
  | .timedOut now fault => .timedOut now.text fault
  | .drained => .drained
  | .settle now backoff fault => .settle now.text backoff.scheduled.text fault

/-- The back-off doubles with each attempt the job has made. -/
def ClockEvent.fits (e : Execution J) : ClockEvent J → Bool
  | .settle _ backoff _ => backoff.attempts = e.job.attempts
  | _ => true

inductive ClockAction (J : Type) where
  | submit (sub : Submission Text J)
  | poll (worker batch : ℕ) (executor : Bool) (now : DbStamp) (locked : String → Bool)
  | work (worker : ℕ) (id : String) (event : ClockEvent J)
  | cancel (id tenantId projectId : String) (now : DbStamp)
  | reap (now : UtcStamp)

def ClockAction.action : ClockAction J → Action Text J
  | .submit sub => .submit sub
  | .poll worker batch executor now locked => .poll worker batch executor now.text locked
  | .work worker id event => .work worker id event.event
  | .cancel id tenantId projectId now => .cancel id tenantId projectId now.text
  | .reap now => .reap now.text

def clockStep (s : JobService Text J) (a : ClockAction J) : JobService Text J :=
  match a with
  | .work worker id event =>
      if (s.holder worker id).all event.fits then step s a.action else s
  | _ => step s a.action

/-- The back-offs of the jobs that have been returned to pending. -/
abbrev Backoffs := String → Option Backoff

/-- The return to pending that a turn commits. -/
def returnsToPending (s : JobService Text J) (worker : ℕ) (id : String) :
    ClockEvent J → Option Backoff
  | .settle _ backoff none =>
      match s.holder worker id with
      | none => none
      | some e =>
          match e.phase with
          | .excepting _ =>
              if backoff.attempts = e.job.attempts ∧ e.job.attempts < e.job.maxAttempts then
                some backoff
              else none
          | _ => none
  | _ => none

def backoffs (s : JobService Text J) (b : Backoffs) : ClockAction J → Backoffs
  | .work worker id event =>
      match returnsToPending s worker id event with
      | some backoff => Function.update b id (some backoff)
      | none => b
  | _ => b

/-- The rows the claim query selects where its limit leaves room and no row is locked. -/
def claimQuery (s : JobService Text J) (now : Text) : List String :=
  s.selected s.jobs.rows.length now fun _ => false

/-- A poll selects a job that waits for its retry if and only if the back-off has elapsed, up
to one second. -/
def BackoffHonoured (st : JobService Text J × Backoffs) : ClockAction J → Prop
  | .poll _ batch _ now locked =>
      ∀ id b r, st.2 id = some b → st.1.jobs.row? id = some r → r.status = .pending →
        (id ∈ st.1.selected batch now.text locked → b.ends - 1 < now.time) ∧
          (b.ends ≤ now.time → id ∈ claimQuery st.1 now.text)
  | _ => True

/-- No poll comes on the day on which a back-off has elapsed, after it has. -/
def PollsOnOtherDays (st : JobService Text J × Backoffs) : ClockAction J → Prop
  | .poll _ _ _ now _ =>
      ∀ id b r, st.2 id = some b → st.1.jobs.row? id = some r → r.status = .pending →
        b.ends ≤ now.time → b.scheduled.dayNumber ≠ now.utc.dayNumber
  | _ => True

end Definitions

section Claims
variable {J : Type} {s : JobService Text J} {id : String} {r : Job Text J} {now : DbStamp}
  {b : Backoff}

theorem Backoff.scheduled_le_ends (b : Backoff) : (b.scheduled.seconds : ℚ) ≤ b.ends := by
  rw [b.scheduledFloor]
  exact Rat.floor_le _

theorem Backoff.ends_lt (b : Backoff) : b.ends - 1 < b.scheduled.seconds := by
  have hfloor := Rat.lt_floor_add_one b.ends
  rw [Rat.intCast_add, Rat.intCast_one] at hfloor
  rw [b.scheduledFloor]
  exact sub_lt_iff_lt_add.mpr hfloor

theorem mem_claimQuery {now : Text} (hr : s.jobs.row? id = some r) :
    id ∈ claimQuery s now ↔ JobService.pollable now r = true := by
  obtain ⟨hmem, hid⟩ := Table.row?_eq_some.mp hr
  constructor
  · intro h
    obtain ⟨r', hr', hp⟩ := JobService.mem_selected h
    rw [hr] at hr'
    cases hr'
    exact hp
  · intro hp
    have hlength : ((s.jobs.rows.filter fun r => JobService.pollable now r && !false).insertionSort
        fun a b => a.createdAt ≤ b.createdAt).length ≤ s.jobs.rows.length := by
      rw [List.length_insertionSort]
      exact List.length_filter_le _ _
    rw [claimQuery, JobService.selected, List.take_of_length_le hlength]
    apply List.mem_map.mpr
    refine ⟨r, (List.mem_insertionSort _).mpr (List.mem_filter.mpr ⟨hmem, ?_⟩), hid⟩
    rw [hp]
    rfl

/-- The row of a job that waits for its retry. -/
def Waits (b : Backoff) (r : Job Text J) : Prop :=
  r.attempts < r.maxAttempts ∧ r.scheduledAt = some b.scheduled.text

theorem Waits.pollable_iff (h : Waits b r) (hpending : r.status = .pending) :
    JobService.pollable now.text r = true ↔ b.scheduled.dayNumber < now.utc.dayNumber := by
  rw [JobService.pollable_iff, h.2, Option.isNone_some, Option.any_some, decide_eq_true_eq,
    DbStamp.le_text_iff]
  simp [hpending, h.1]

theorem Backoff.elapsed (hday : b.scheduled.dayNumber < now.utc.dayNumber) :
    b.ends - 1 < now.time := by
  have hseconds : (b.scheduled.seconds : ℚ) < now.utc.seconds := by
    exact_mod_cast UtcStamp.seconds_lt_of_day hday
  have hends := b.ends_lt
  have hnow := @DbStamp.seconds_le_time now
  linarith

theorem Backoff.day_le (h : b.ends ≤ now.time) : b.scheduled.dayNumber ≤ now.utc.dayNumber := by
  by_contra hlater
  have hseconds := UtcStamp.seconds_lt_of_day (Nat.not_le.mp hlater)
  have hcast : (now.utc.seconds : ℚ) + 1 ≤ b.scheduled.seconds := by exact_mod_cast hseconds
  have hends := b.scheduled_le_ends
  have hnow := @DbStamp.time_lt now
  linarith

end Claims

section Attempts
variable {τ J : Type} {s : JobService τ J}

/-- A job in hand carries the counters of its row. -/
def Carried (s : JobService τ J) : Prop :=
  ∀ e ∈ s.inFlight, ∀ r, s.jobs.row? e.job.id = some r →
    r.attempts = e.job.attempts ∧ r.maxAttempts = e.job.maxAttempts

theorem Carried.of_table (h : Carried s) {jobs : JobTable τ J}
    (hrow : ∀ e ∈ s.inFlight, ∀ r', jobs.row? e.job.id = some r' →
      ∃ r, s.jobs.row? e.job.id = some r ∧ r'.attempts = r.attempts ∧
        r'.maxAttempts = r.maxAttempts) :
    Carried { s with jobs := jobs } := by
  intro e he r' hr'
  obtain ⟨r, hr, hattempts, hmax⟩ := hrow e he r' hr'
  obtain ⟨hcarried, hcarried'⟩ := h e he r hr
  exact ⟨hattempts.trans hcarried, hmax.trans hcarried'⟩

theorem row_of_update {jobs : JobTable τ J} {p : Job τ J → Bool} {f : Job τ J → Job τ J}
    (hid : ∀ r, (f r).id = r.id) {k : String} {r' : Job τ J}
    (h : (jobs.update p f hid).row? k = some r') :
    ∃ r, jobs.row? k = some r ∧ r' = if p r then f r else r := by
  rw [Table.row?_update] at h
  obtain ⟨r, hr, heq⟩ := Option.map_eq_some_iff.mp h
  exact ⟨r, hr, heq.symm⟩

theorem Carried.update (h : Carried s) {p : Job τ J → Bool} {f : Job τ J → Job τ J}
    (hid : ∀ r, (f r).id = r.id)
    (hf : ∀ r, (f r).attempts = r.attempts ∧ (f r).maxAttempts = r.maxAttempts) :
    Carried { s with jobs := s.jobs.update p f hid } := by
  apply h.of_table
  intro e _ r' hr'
  obtain ⟨r, hr, rfl⟩ := row_of_update hid hr'
  refine ⟨r, hr, ?_⟩
  split
  · exact hf r
  · exact ⟨rfl, rfl⟩

theorem Carried.submit (h : Carried s) (hheld : Held s) (sub : Submission τ J) :
    Carried (s.submit sub) := by
  rw [JobService.submit]
  split
  · cases hins : s.jobs.insert sub.row with
    | none => exact h
    | some jobs =>
        apply h.of_table
        intro e he r' hr'
        obtain ⟨r, hr, _⟩ := hheld.live e he
        have hne : sub.row.id ≠ e.job.id := by
          intro heq
          rw [← heq, Table.insert_fresh hins] at hr
          cases hr
        rw [Table.row?_insert hins, if_neg hne] at hr'
        exact ⟨r', hr', rfl, rfl⟩
  · exact h

theorem Carried.work (h : Carried s) (worker : ℕ) (id : String) (event : WorkEvent τ J) :
    Carried (s.work worker id event) := by
  cases s.work_cases worker id event with
  | inl hsame =>
      rw [hsame.1]
      exact h
  | inr hturn =>
      obtain ⟨e, outcome, after, _, _, hwork⟩ := hturn
      rw [hwork]
      have hjobs : Carried { s with jobs := JobService.writeOutcome s.jobs id outcome } := by
        cases outcome with
        | none => exact h
        | some o =>
            exact h.update (fun r => by cases o <;> rfl) fun r => by cases o <;> exact ⟨rfl, rfl⟩
      intro x hx r hr
      cases After.mem_moved hx with
      | inl hold => exact hjobs x hold.1 r hr
      | inr hmoved =>
          obtain ⟨y, hy, phase, _, _, rfl⟩ := hmoved
          exact hjobs y hy r hr

variable [LinearOrder τ]

theorem Carried.poll (h : Carried s) (hheld : Held s) (worker batch : ℕ) (executor : Bool)
    (now : τ) (locked : String → Bool) :
    Carried (s.poll worker batch executor now locked) := by
  intro e he r' hr'
  obtain ⟨r, hr, heq⟩ := row_of_update (Job.claim_id now) hr'
  cases List.mem_append.mp he with
  | inl hold =>
      -- what is in hand is not pending, and the poll claims what is
      obtain ⟨hcarried, hmax⟩ := h e hold r hr
      obtain ⟨r₀, hr₀, hin⟩ := hheld.live e hold
      rw [hr] at hr₀
      cases hr₀
      have hnot : r.id ∉ s.selected batch now locked := by
        intro hselected
        obtain ⟨r₁, hr₁, hp⟩ := JobService.mem_selected hselected
        rw [(Table.row?_eq_some.mp hr).2, hr] at hr₁
        cases hr₁
        exact hin.ne_pending (JobService.pollable_iff.mp hp).1
      rw [heq, if_neg (by simpa using hnot)]
      exact ⟨hcarried, hmax⟩
  | inr hnew =>
      obtain ⟨x, hx, rfl⟩ := List.mem_map.mp hnew
      obtain ⟨r₀, hr₀, rfl⟩ := List.mem_map.mp hx
      obtain ⟨hmem, hselected⟩ := List.mem_filter.mp hr₀
      have hrow : s.jobs.row? r₀.id = some r₀ := Table.row?_eq_some.mpr ⟨hmem, rfl⟩
      have hsame : some r₀ = some r := hrow.symm.trans hr
      cases hsame
      rw [heq, if_pos hselected]
      exact ⟨rfl, rfl⟩

theorem Carried.step (h : Carried s) (hheld : Held s) (a : Action τ J) :
    Carried (Jobs.step s a) := by
  cases a with
  | submit sub => exact h.submit hheld sub
  | poll worker batch executor now locked =>
      rw [Jobs.step]
      split
      · exact h.poll hheld worker batch executor now locked
      · exact h
  | work worker id event => exact h.work worker id event
  | cancel id tenantId projectId now =>
      exact h.update (f := Job.cancel now) (fun _ => rfl) fun _ => ⟨rfl, rfl⟩
  | reap now => exact h.update (f := Job.expire now) (fun _ => rfl) fun _ => ⟨rfl, rfl⟩

end Attempts

section Turns
variable {J : Type} {s : JobService Text J} {worker : ℕ} {id : String} {event : ClockEvent J}
  {b : Backoff}

theorem returnsToPending_spec (h : returnsToPending s worker id event = some b) :
    ∃ e, s.holder worker id = some e ∧ event.fits e = true ∧
      e.job.attempts < e.job.maxAttempts ∧
      e.advance s.inFlight event.event = some (some (.pending b.scheduled.text), .leave) := by
  cases event with
  | settle now backoff fault =>
      cases fault with
      | some error => cases h
      | none =>
          rw [returnsToPending] at h
          cases hholder : s.holder worker id with
          | none =>
              rw [hholder] at h
              cases h
          | some e =>
              rw [hholder] at h
              dsimp only at h
              cases hphase : e.phase with
              | excepting error =>
                  rw [hphase] at h
                  dsimp only at h
                  split at h
                  next hlast =>
                    cases h
                    refine ⟨e, rfl, decide_eq_true hlast.1, hlast.2, ?_⟩
                    simp [ClockEvent.event, Execution.advance, hphase, Nat.not_le.mpr hlast.2]
                  next => cases h
              | claimed | dispatched | draining =>
                  rw [hphase] at h
                  cases h
  | dispatch | returned _ _ _ | raised _ | timedOut _ _ | drained => cases h

theorem returnsToPending_of_advance {e : Execution J} {o : Outcome Text J} {after : After}
    (hholder : s.holder worker id = some e) (hfits : event.fits e = true)
    (hadv : e.advance s.inFlight event.event = some (some o, after))
    (hpending : o.status = .pending) :
    ∃ b, returnsToPending s worker id event = some b := by
  cases event with
  | settle now backoff fault =>
      have hattempts : backoff.attempts = e.job.attempts := of_decide_eq_true hfits
      cases hphase : e.phase with
      | excepting error =>
          cases fault with
          | some error => simp [ClockEvent.event, Execution.advance, hphase] at hadv
          | none =>
              by_cases hlast : e.job.maxAttempts ≤ e.job.attempts
              · simp only [ClockEvent.event, Execution.advance, hphase, ge_iff_le, hlast,
                  if_true, Option.some.injEq, Prod.mk.injEq] at hadv
                rw [← hadv.1] at hpending
                cases hpending
              · refine ⟨backoff, ?_⟩
                simp [returnsToPending, hholder, hphase, hattempts, Nat.not_le.mp hlast]
      | claimed | dispatched | draining =>
          simp [ClockEvent.event, Execution.advance, hphase] at hadv
  | returned result now fault =>
      simp only [ClockEvent.event, Execution.advance] at hadv
      split at hadv
      · cases fault <;> cases hadv
        cases hpending
      · cases hadv
  | timedOut now fault =>
      simp only [ClockEvent.event, Execution.advance] at hadv
      split at hadv
      · cases fault <;> cases hadv
        cases hpending
      · cases hadv
  | dispatch | raised _ | drained =>
      simp only [ClockEvent.event, Execution.advance] at hadv
      split at hadv <;> cases hadv

end Turns

/-- What a run keeps: the back-off of a pending job is the schedule of its row. -/
structure Scheduled {J : Type} (st : JobService Text J × Backoffs) : Prop where
  held : Held st.1
  carried : Carried st.1
  known : ∀ id b, st.2 id = some b → ∃ r, st.1.jobs.row? id = some r
  waits : ∀ id b r, st.2 id = some b → st.1.jobs.row? id = some r → r.status = .pending →
    Waits b r

namespace Scheduled
variable {J : Type} {st : JobService Text J × Backoffs}

theorem start (before : JobTable Text J) :
    Scheduled ((⟨before, []⟩, fun _ => none) : JobService Text J × Backoffs) where
  held := Held.nothing_inFlight before
  carried _ he := nomatch he
  known _ _ h := nomatch h
  waits _ _ _ h := nomatch h

theorem of_rows (h : Scheduled st) {s : JobService Text J} (hheld : Held s)
    (hcarried : Carried s) (hrows : ∀ id r, st.1.jobs.row? id = some r →
      ∃ r', s.jobs.row? id = some r' ∧ (r'.status = .pending → r' = r)) :
    Scheduled (s, st.2) where
  held := hheld
  carried := hcarried
  known id b hb := by
    obtain ⟨r, hr⟩ := h.known id b hb
    obtain ⟨r', hr', _⟩ := hrows id r hr
    exact ⟨r', hr'⟩
  waits id b r' hb hr' hpending := by
    obtain ⟨r, hr⟩ := h.known id b hb
    obtain ⟨r₁, hr₁, hsame⟩ := hrows id r hr
    have heq : some r₁ = some r' := hr₁.symm.trans hr'
    cases heq
    have hrow := hsame hpending
    subst hrow
    exact h.waits id b _ hb hr hpending

theorem of_update (h : Scheduled st) {s : JobService Text J} (hheld : Held s)
    (hcarried : Carried s) {p : Job Text J → Bool} {f : Job Text J → Job Text J}
    (hid : ∀ r, (f r).id = r.id) (hjobs : s.jobs = st.1.jobs.update p f hid)
    (hf : ∀ r, (f r).status ≠ .pending) : Scheduled (s, st.2) := by
  apply h.of_rows hheld hcarried
  intro id r hr
  rw [hjobs]
  refine ⟨_, Table.row?_update_of_some hr hid, ?_⟩
  intro hpending
  split at hpending
  next => exact absurd hpending (hf r)
  next hp => exact if_neg hp

theorem submit (h : Scheduled st) (sub : Submission Text J) :
    Scheduled (st.1.submit sub, st.2) := by
  apply h.of_rows (h.held.submit sub) (h.carried.submit h.held sub)
  intro id r hr
  refine ⟨r, ?_, fun _ => rfl⟩
  rw [JobService.submit]
  split
  · cases hins : st.1.jobs.insert sub.row with
    | none => exact hr
    | some jobs =>
        have hne : sub.row.id ≠ id := by
          intro heq
          rw [← heq, Table.insert_fresh hins] at hr
          cases hr
        exact (Table.row?_insert hins id).trans ((if_neg hne).trans hr)
  · exact hr

/-- The turn that returns a job to pending schedules it as recorded; no other turn leaves a
job pending. -/
theorem work (h : Scheduled st) (worker : ℕ) (id : String) (event : ClockEvent J)
    (hfits : (st.1.holder worker id).all event.fits = true) :
    Scheduled (st.1.work worker id event.event, backoffs st.1 st.2 (.work worker id event)) := by
  have hheld := h.held.work worker id event.event
  have hcarried := h.carried.work worker id event.event
  rw [backoffs]
  cases hreturn : returnsToPending st.1 worker id event with
  | none =>
      apply h.of_rows hheld hcarried
      intro k r hr
      cases st.1.work_cases worker id event.event with
      | inl hsame => exact ⟨r, by rw [hsame.1, hr], fun _ => rfl⟩
      | inr hturn =>
          obtain ⟨e, outcome, after, hholder, hadv, hwork⟩ := hturn
          rw [hwork]
          by_cases hk : k = id
          · subst hk
            refine ⟨_, JobService.row?_writeOutcome_self hr outcome, ?_⟩
            cases outcome with
            | none => exact fun _ => rfl
            | some o =>
                intro hpending
                rw [Option.elim_some, o.set_status] at hpending
                rw [hholder] at hfits
                obtain ⟨b, hb⟩ := returnsToPending_of_advance hholder hfits hadv hpending
                rw [hreturn] at hb
                cases hb
          · exact ⟨r, (JobService.row?_writeOutcome_other _ hk outcome).trans hr, fun _ => rfl⟩
  | some b =>
      obtain ⟨e, hholder, _, hattempts, hadv⟩ := returnsToPending_spec hreturn
      obtain ⟨he, _, hid⟩ := JobService.holder_eq_some hholder
      subst hid
      obtain ⟨r₀, hr₀, _⟩ := h.held.live e he
      obtain ⟨hcount, hmax⟩ := h.carried e he r₀ hr₀
      have hself := JobService.row?_writeOutcome_self hr₀
        (some (Outcome.pending b.scheduled.text))
      have hwork := work_eq hholder hadv
      refine ⟨hheld, hcarried, ?_, ?_⟩
      · intro k b' hb'
        dsimp only at hb' ⊢
        rw [hwork]
        by_cases hk : k = e.job.id
        · rw [hk]
          exact ⟨_, hself⟩
        · rw [Function.update_of_ne hk] at hb'
          obtain ⟨r, hr⟩ := h.known k b' hb'
          exact ⟨r, (JobService.row?_writeOutcome_other _ hk _).trans hr⟩
      · intro k b' r hb' hr hpending
        dsimp only at hb' hr
        rw [hwork] at hr
        by_cases hk : k = e.job.id
        · rw [hk] at hb' hr
          rw [Function.update_self] at hb'
          have hrow : some _ = some r := hself.symm.trans hr
          cases hb'
          cases hrow
          refine ⟨?_, rfl⟩
          change r₀.attempts < r₀.maxAttempts
          rw [hcount, hmax]
          exact hattempts
        · rw [Function.update_of_ne hk] at hb'
          have hold := (JobService.row?_writeOutcome_other _ hk _).symm.trans hr
          exact h.waits k b' r hb' hold hpending

theorem step (h : Scheduled st) (a : ClockAction J) :
    Scheduled (withHistory clockStep backoffs st a) := by
  cases a with
  | submit sub => exact h.submit sub
  | poll worker batch executor now locked =>
      have hheld := h.held.step (.poll worker batch executor now.text locked)
      have hcarried := h.carried.step h.held (.poll worker batch executor now.text locked)
      change Scheduled (Jobs.step st.1 (.poll worker batch executor now.text locked), st.2)
      rw [Jobs.step] at hheld hcarried ⊢
      split at hheld
      next hidle =>
        rw [if_pos hidle] at hcarried ⊢
        apply h.of_update hheld hcarried (Job.claim_id now.text) rfl
        intro r hstatus
        cases hstatus
      next hbusy =>
        rw [if_neg hbusy]
        exact h
  | work worker id event =>
      rw [withHistory, clockStep]
      by_cases hfits : (st.1.holder worker id).all event.fits = true
      · rw [if_pos hfits]
        exact h.work worker id event hfits
      · rw [if_neg hfits, backoffs]
        cases hreturn : returnsToPending st.1 worker id event with
        | none => exact h
        | some b =>
            obtain ⟨e, hholder, hfits', _⟩ := returnsToPending_spec hreturn
            rw [hholder] at hfits
            exact absurd hfits' hfits
  | cancel id tenantId projectId now =>
      have hcarried : Carried (st.1.cancel id tenantId projectId now.text) :=
        h.carried.update (f := Job.cancel now.text) (fun _ => rfl) fun _ => ⟨rfl, rfl⟩
      apply h.of_update (f := Job.cancel now.text) (h.held.cancel id tenantId projectId now.text)
        hcarried (fun _ => rfl) rfl
      intro r hstatus
      cases hstatus
  | reap now =>
      have hcarried : Carried (st.1.reap now.text) :=
        h.carried.update (f := Job.expire now.text) (fun _ => rfl) fun _ => ⟨rfl, rfl⟩
      apply h.of_update (f := Job.expire now.text) (h.held.reap now.text) hcarried
        (fun _ => rfl) rfl
      intro r hstatus
      cases hstatus

end Scheduled

/-- A poll honours a back-off exactly when it does not come on the day on which the back-off
has elapsed. -/
theorem Scheduled.honoured_iff {J : Type} {st : JobService Text J × Backoffs} (h : Scheduled st)
    (a : ClockAction J) : BackoffHonoured st a ↔ PollsOnOtherDays st a := by
  cases a with
  | poll worker batch executor now locked =>
      constructor
      · intro hhonoured id b r hb hr hpending helapsed
        have hclaimed := ((hhonoured id b r hb hr hpending).2 helapsed)
        rw [mem_claimQuery hr, (h.waits id b r hb hr hpending).pollable_iff hpending] at hclaimed
        exact Nat.ne_of_lt hclaimed
      · intro hother id b r hb hr hpending
        have hwaits := h.waits id b r hb hr hpending
        constructor
        · intro hselected
          obtain ⟨r', hr', hp⟩ := JobService.mem_selected hselected
          rw [hr] at hr'
          cases hr'
          exact Backoff.elapsed ((hwaits.pollable_iff hpending).mp hp)
        · intro helapsed
          rw [mem_claimQuery hr, hwaits.pollable_iff hpending]
          exact Nat.lt_of_le_of_ne (Backoff.day_le helapsed)
            (hother id b r hb hr hpending helapsed)
  | submit _ | work _ _ _ | cancel _ _ _ _ | reap _ => exact Iff.rfl

/-- The polls of a run honour the back-offs if and only if none comes on the day on which a
back-off has elapsed. -/
theorem backoff_honoured_iff {J : Type} (before : JobTable Text J) (run : List (ClockAction J)) :
    AllSteps (withHistory clockStep backoffs) BackoffHonoured (⟨before, []⟩, fun _ => none) run ↔
      AllSteps (withHistory clockStep backoffs) PollsOnOtherDays (⟨before, []⟩, fun _ => none)
        run :=
  allSteps_congr (P := Scheduled) (fun _ a h => h.step a) (fun _ a h => h.honoured_iff a)
    (Scheduled.start before) run

section SameDay

/-- A time of the first of March 2026. -/
def marchFirst (hour minute second : ℕ) (h : UtcStamp.InRange 2026 3 1 hour minute second) :
    UtcStamp :=
  .of 2026 3 1 hour minute second h

theorem marchFirst_seconds {hour minute second : ℕ}
    (h : UtcStamp.InRange 2026 3 1 hour minute second) :
    (marchFirst hour minute second h).seconds =
      1772323200 + ((hour * 60 + minute) * 60 + second : ℕ) := by
  have hday : (marchFirst hour minute second h).dayNumber = 740042 := by
    change daysBeforeYear 2026 + daysBeforeMonth 2026 3 + 1 = 740042
    decide
  have htime : (marchFirst hour minute second h).secondOfDay =
      (hour * 60 + minute) * 60 + second := rfl
  rw [UtcStamp.seconds, hday, UtcStamp.epochDay, htime]
  omega

theorem atTen_inRange : UtcStamp.InRange 2026 3 1 10 0 0 := by decide

theorem beforeMidnight_inRange : UtcStamp.InRange 2026 3 1 23 59 59 := by decide

theorem afterTen_inRange : UtcStamp.InRange 2026 3 1 10 0 3 := by decide

theorem whole_second : 0 < 1000000 := by decide

def atTen : DbStamp where
  utc := marchFirst 10 0 0 atTen_inRange
  micro := 0
  microValid := whole_second

def beforeMidnight : DbStamp where
  utc := marchFirst 23 59 59 beforeMidnight_inRange
  micro := 0
  microValid := whole_second

/-- The first attempt fails a second after ten. -/
def afterTen : Backoff where
  failedAt := 1772359201
  attempts := 1
  scheduled := marchFirst 10 0 3 afterTen_inRange
  scheduledFloor := by
    rw [marchFirst_seconds]
    norm_num
    rfl

def agingSubmission : Submission Text Unit where
  id := "job_1"
  tenantId := "acme"
  projectId := "default"
  operation := "aging"
  params := ()
  now := atTen.utc.text
  expires := beforeMidnight.utc.text
  maxExecutionSeconds := none

/-- A job whose first attempt fails at ten, and a poll at the end of the day. -/
def retriedAtMidnight : List (ClockAction Unit) :=
  [.submit agingSubmission, .poll 0 1 false atTen fun _ => false,
    .work 0 "job_1" .dispatch, .work 0 "job_1" (.raised "ConnectionError: reset"),
    .work 0 "job_1" (.settle atTen afterTen none), .poll 0 1 false beforeMidnight fun _ => false]

theorem retry_skipped_all_day :
    ¬ ∀ (before : JobTable Text Unit) (run : List (ClockAction Unit)),
      AllSteps (withHistory clockStep backoffs) BackoffHonoured (⟨before, []⟩, fun _ => none)
        run := by
  intro h
  have hrun := h ⟨[], List.nodup_nil⟩ retriedAtMidnight
  obtain ⟨_, _, _, _, _, hlast, _⟩ := hrun
  have helapsed : afterTen.ends ≤ beforeMidnight.time := by
    rw [DbStamp.time, beforeMidnight, marchFirst_seconds, Backoff.ends, afterTen]
    norm_num
  have hclaimed := (hlast "job_1" afterTen _ rfl rfl rfl).2 helapsed
  exact absurd hclaimed (by decide)

end SameDay

end Engramia.Jobs
