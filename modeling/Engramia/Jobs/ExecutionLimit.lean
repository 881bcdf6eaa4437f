import Engramia.Jobs.Service
import Mathlib.Algebra.Order.Field.Rat

/-!
The execution limit. With a limit the operation runs in a helper thread, and waiting for the
thread raises `TimeoutError` at the deadline. The handler expires the job, but it takes every
`TimeoutError` for the deadline's, also one that the operation itself raises in good time. The
same error without a limit fails the job or sends it back for a retry. All other ways in which
an operation can end within its limit are treated alike, in memory and over the database.
-/
namespace Engramia.Jobs
open Engramia.Library

section Definitions
variable {τ J : Type}

/-- Where a class of exceptions stands in the hierarchy. -/
inductive ExceptionKind where
  | timeoutError
  | otherException
  /-- An exit or an interrupt, which `except Exception` lets through. -/
  | baseException
deriving DecidableEq

structure RaisedError where
  kind : ExceptionKind
  typeName : String
  message : String
deriving DecidableEq

inductive Ending (J : Type) where
  | returned (result : J)
  | raised (exc : RaisedError)
deriving DecidableEq

/-- A call of `dispatch_job`: how it ends and how many seconds it takes. -/
structure Operation (J : Type) where
  ending : Ending J
  seconds : ℚ
deriving DecidableEq

/-- `fut.result(timeout=…)` -/
def Operation.result (op : Operation J) (timeout : Int) : Ending J :=
  if op.seconds < timeout then op.ending
  else .raised { kind := .timeoutError, typeName := "TimeoutError", message := "" }

/-- How an execution leaves the two branches on the limit. -/
inductive Dispatched (J : Type) where
  | ended (ending : Ending J)
  | expired (maxExec : Int)

def dispatch (maxExec : Option Int) (op : Operation J) : Dispatched J :=
  match maxExec with
  | none => .ended op.ending
  | some maxExec =>
      match op.result maxExec with
      | .returned result => .ended (.returned result)
      | .raised exc =>
          if exc.kind = .timeoutError then .expired maxExec else .ended (.raised exc)

/-- The time at the end of an execution, and the time some seconds later. -/
structure EndClock (τ : Type) where
  now : τ
  later : ℕ → τ

/-- The branch `except Exception`. -/
def retryOrFail (clock : EndClock τ) (attempts maxAttempts : ℕ) (exc : RaisedError) :
    Outcome τ J :=
  if attempts ≥ maxAttempts then .failed s!"{exc.typeName}: {exc.message}" clock.now
  else .pending (clock.later (2 ^ attempts))

/-- `_execute_job`, with the exception that leaves it. -/
def executeJob (clock : EndClock τ) (op : Operation J) (job : Job τ J) :
    Job τ J × Option RaisedError :=
  match dispatch job.maxExecutionSeconds op with
  | .expired maxExec =>
      ((Outcome.expired s!"Job exceeded max execution time ({maxExec}s)" clock.now).set job, none)
  | .ended (.returned result) => ((Outcome.completed result clock.now).set job, none)
  | .ended (.raised exc) =>
      if exc.kind = .baseException then (job, some exc)
      else ((retryOrFail clock job.attempts job.maxAttempts exc).set job, none)

/-- The exception with which the database answers a statement, if any. -/
abbrev Faults (τ J : Type) := Outcome τ J → Option RaisedError

/-- `with self._engine.begin()` around one statement. -/
def commit (faults : Faults τ J) (o : Outcome τ J) :
    Option (Outcome τ J) × Option RaisedError :=
  match faults o with
  | none => (some o, none)
  | some exc => (none, some exc)

/-- The handler of `_db_execute_one`. -/
def dbHandle (clock : EndClock τ) (faults : Faults τ J) (job : JobDict J) (exc : RaisedError) :
    Option (Outcome τ J) × Option RaisedError :=
  if exc.kind = .baseException then (none, some exc)
  else commit faults (retryOrFail clock job.attempts job.maxAttempts exc)

/-- A statement inside the `try`. -/
def dbTry (clock : EndClock τ) (faults : Faults τ J) (job : JobDict J) (o : Outcome τ J) :
    Option (Outcome τ J) × Option RaisedError :=
  match faults o with
  | none => (some o, none)
  | some exc => dbHandle clock faults job exc

/-- `_db_execute_one`: the statement it commits and the exception that leaves it. -/
def dbExecuteOne (clock : EndClock τ) (faults : Faults τ J) (op : Operation J)
    (job : JobDict J) : Option (Outcome τ J) × Option RaisedError :=
  match dispatch job.maxExecutionSeconds op with
  | .expired maxExec =>
      dbTry clock faults job
        (.expired s!"Job exceeded max execution time ({maxExec}s)" clock.now)
  | .ended (.returned result) => dbTry clock faults job (.completed result clock.now)
  | .ended (.raised exc) => dbHandle clock faults job exc

/-- What an execution leaves of a row, and the exception that leaves it. -/
def dbExecuteRow (clock : EndClock τ) (faults : Faults τ J) (op : Operation J)
    (row : Job τ J) : Job τ J × Option RaisedError :=
  let r := dbExecuteOne clock faults op row.toDict
  (r.1.elim row fun o => o.set row, r.2)

def Job.withLimit (maxExec : Option Int) (job : Job τ J) : Job τ J :=
  { job with maxExecutionSeconds := maxExec }

/-- The two executions end alike and leave the same in all columns but the limit. -/
def SameEnd (a b : Job τ J × Option RaisedError) : Prop :=
  a.1.withLimit none = b.1.withLimit none ∧ a.2 = b.2

/-- A limit that is met makes no difference, in memory and over a database however it
answers. -/
def LimitTransparent (clock : EndClock τ) (op : Operation J) (job : Job τ J) (maxExec : Int) :
    Prop :=
  SameEnd (executeJob clock op (job.withLimit (some maxExec)))
      (executeJob clock op (job.withLimit none)) ∧
    ∀ faults : Faults τ J,
      SameEnd (dbExecuteRow clock faults op (job.withLimit (some maxExec)))
        (dbExecuteRow clock faults op (job.withLimit none))

/-- The operation raises `TimeoutError` itself. -/
def Operation.RaisesTimeout (op : Operation J) : Prop :=
  ∃ exc, op.ending = .raised exc ∧ exc.kind = .timeoutError

end Definitions

section Limits
variable {τ J : Type} {op : Operation J} {maxExec : Int} {clock : EndClock τ}

theorem dispatch_none (op : Operation J) : dispatch none op = .ended op.ending := rfl

theorem dispatch_of_met (h : op.seconds < maxExec) :
    (¬ op.RaisesTimeout → dispatch (some maxExec) op = .ended op.ending) ∧
      (op.RaisesTimeout → dispatch (some maxExec) op = .expired maxExec) := by
  have hresult : op.result maxExec = op.ending := if_pos h
  simp only [dispatch, hresult]
  cases hending : op.ending with
  | returned result =>
      constructor
      · exact fun _ => rfl
      · intro htimeout
        obtain ⟨exc, hexc, _⟩ := htimeout
        rw [hending] at hexc
        cases hexc
  | raised exc =>
      constructor
      · intro hno
        exact if_neg fun hkind => hno ⟨exc, hending, hkind⟩
      · intro htimeout
        obtain ⟨exc', hexc, hkind⟩ := htimeout
        rw [hending] at hexc
        cases hexc
        exact if_pos hkind

variable (clock) (job : Job τ J)

theorem set_withLimit (o : Outcome τ J) (limit : Option Int) :
    (o.set (job.withLimit limit)).withLimit none = (o.set (job.withLimit none)).withLimit none := by
  cases o <;> rfl

theorem executeJob_same (h : dispatch (some maxExec) op = .ended op.ending) :
    SameEnd (executeJob clock op (job.withLimit (some maxExec)))
      (executeJob clock op (job.withLimit none)) := by
  have hlimit : dispatch (job.withLimit (some maxExec)).maxExecutionSeconds op =
      .ended op.ending := h
  have hnone : dispatch (job.withLimit none).maxExecutionSeconds op = .ended op.ending := rfl
  simp only [executeJob, hlimit, hnone]
  cases op.ending with
  | returned result => exact ⟨rfl, rfl⟩
  | raised exc =>
      dsimp only
      split
      · exact ⟨rfl, rfl⟩
      · exact ⟨set_withLimit job _ _, rfl⟩

theorem dbExecuteRow_same (h : dispatch (some maxExec) op = .ended op.ending)
    (faults : Faults τ J) :
    SameEnd (dbExecuteRow clock faults op (job.withLimit (some maxExec)))
      (dbExecuteRow clock faults op (job.withLimit none)) := by
  have hone : dbExecuteOne clock faults op (job.withLimit (some maxExec)).toDict =
      dbExecuteOne clock faults op (job.withLimit none).toDict := by
    simp only [dbExecuteOne, Job.withLimit, Job.toDict, h, dispatch_none]
    cases op.ending <;> rfl
  rw [dbExecuteRow, dbExecuteRow, hone]
  refine ⟨?_, rfl⟩
  dsimp only
  cases (dbExecuteOne clock faults op (job.withLimit none).toDict).1 with
  | none => rfl
  | some o => exact set_withLimit job o _

theorem retryOrFail_status (clock : EndClock τ) (attempts maxAttempts : ℕ) (exc : RaisedError)
    (job : Job τ J) :
    ((retryOrFail clock attempts maxAttempts exc).set job).status ≠ .expired := by
  rw [retryOrFail]
  split <;> simp [Outcome.set]

theorem executeJob_unlimited_raised {exc : RaisedError} (h : op.ending = .raised exc)
    (hkind : exc.kind = .timeoutError) :
    (executeJob clock op (job.withLimit none)).1.status ≠ .expired := by
  have hbase : exc.kind ≠ .baseException := by
    rw [hkind]
    simp
  have hnone : dispatch (job.withLimit none).maxExecutionSeconds op = .ended (.raised exc) :=
    congrArg Dispatched.ended h
  simp only [executeJob, hnone, if_neg hbase]
  exact retryOrFail_status clock _ _ exc _

end Limits

/-- A limit that is met changes nothing unless the operation itself raises `TimeoutError`. -/
theorem limit_transparent_iff {τ J : Type} (clock : EndClock τ) (op : Operation J)
    (job : Job τ J) (maxExec : Int) (h : op.seconds < maxExec) :
    LimitTransparent clock op job maxExec ↔ ¬ op.RaisesTimeout := by
  obtain ⟨hsame, hexpired⟩ := dispatch_of_met h
  constructor
  · intro htransparent htimeout
    have hlimited : (executeJob clock op (job.withLimit (some maxExec))).1.status = .expired := by
      simp only [executeJob, Job.withLimit, hexpired htimeout]
      rfl
    obtain ⟨exc, hending, hkind⟩ := htimeout
    apply executeJob_unlimited_raised clock job hending hkind
    rw [← hlimited]
    exact (congrArg Job.status htransparent.1.1).symm
  · intro hno
    exact ⟨executeJob_same clock job (hsame hno), dbExecuteRow_same clock job (hsame hno)⟩

section Sample

def sampleClock : EndClock ℕ where
  now := 1000
  later seconds := 1000 + seconds

/-- A job on its first attempt of three. -/
def firstAttempt : Job ℕ Unit where
  id := "job_1"
  tenantId := "acme"
  projectId := "default"
  operation := "evaluate"
  params := ()
  status := .running
  result := none
  error := none
  attempts := 1
  maxAttempts := 3
  createdAt := 900
  scheduledAt := none
  startedAt := some 990
  completedAt := none
  expiresAt := none
  maxExecutionSeconds := some 60

/-- A call whose connection times out after a second. -/
def slowConnection : Operation Unit where
  ending := .raised
    { kind := .timeoutError, typeName := "TimeoutError", message := "read timed out" }
  seconds := 1

def quickCall : Operation Unit where
  ending := .returned ()
  seconds := 1

theorem limit_transparent_quick :
    quickCall.seconds < (60 : Int) ∧ (LimitTransparent sampleClock quickCall firstAttempt 60 ↔
      ¬ quickCall.RaisesTimeout) :=
  ⟨by decide, limit_transparent_iff sampleClock quickCall firstAttempt 60 (by decide)⟩

/-- The same error is retried without a limit and ends the job with one. -/
theorem own_timeout_expires :
    ¬ ∀ (clock : EndClock ℕ) (op : Operation Unit) (job : Job ℕ Unit) (maxExec : Int),
      op.seconds < maxExec → LimitTransparent clock op job maxExec := by
  intro h
  have hsame := (h sampleClock slowConnection firstAttempt 60 (by decide)).1.1
  exact absurd (congrArg Job.status hsame) (by decide)

end Sample

end Engramia.Jobs
