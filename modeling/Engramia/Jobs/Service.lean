import Engramia.Library.KeyedTable
import Engramia.Library.Run
import Mathlib.Data.List.Sort

/-!
`JobService` in database mode: the `jobs` table, the jobs workers have in
hand, and one step for each SQL statement and each turn `_db_execute_one` can
take between two of them.

Timestamps are texts the database compares, so only their order matters and
`τ` is any linear order. `J` is the type of JSON values. What the environment
decides comes with the label: the clock, the rows other transactions hold
locked, how a dispatched operation ends and which statement fails. A step
that is not possible in a state leaves it as it is.
-/
namespace Engramia.Jobs

open Engramia.Library

inductive JobStatus where
  | pending
  | running
  | completed
  | failed
  | cancelled
  | expired
deriving DecidableEq, Repr

def JobStatus.finished : JobStatus → Bool
  | .pending | .running => false
  | .completed | .failed | .cancelled | .expired => true

/-- The values of `JobOperation`. -/
def jobOperations : List String :=
  ["evaluate", "compose", "evolve", "aging", "feedback_decay", "import", "export",
    "retention_cleanup", "compact_audit_log", "cleanup_old_jobs", "roi_rollup"]

/-- A row of `jobs`. The submitting key and the request id are carried along
for tracing only. -/
structure Job (τ J : Type) where
  id : String
  tenantId : String
  projectId : String
  operation : String
  params : J
  status : JobStatus
  result : Option J
  error : Option String
  attempts : Nat
  maxAttempts : Nat
  createdAt : τ
  scheduledAt : Option τ
  startedAt : Option τ
  completedAt : Option τ
  expiresAt : Option τ
  maxExecutionSeconds : Option Int
deriving DecidableEq

abbrev JobTable (τ J : Type) :=
  Table (fun r : Job τ J => r.id)

/-- What `_db_poll_and_execute` hands to `_db_execute_one`. -/
structure JobDict (J : Type) where
  id : String
  tenantId : String
  projectId : String
  operation : String
  params : J
  attempts : Nat
  maxAttempts : Nat
  maxExecutionSeconds : Option Int
deriving DecidableEq

def Job.toDict {τ J : Type} (r : Job τ J) : JobDict J where
  id := r.id
  tenantId := r.tenantId
  projectId := r.projectId
  operation := r.operation
  params := r.params
  attempts := r.attempts
  maxAttempts := r.maxAttempts
  maxExecutionSeconds := r.maxExecutionSeconds

/-- The columns the poll sets. -/
def Job.claim {τ J : Type} (now : τ) (r : Job τ J) : Job τ J :=
  { r with status := .running, startedAt := some now, attempts := r.attempts + 1 }

/-- The columns `_db_cancel` sets. -/
def Job.cancel {τ J : Type} (now : τ) (r : Job τ J) : Job τ J :=
  { r with status := .cancelled, completedAt := some now }

/-- The columns `_db_reap_expired` sets. -/
def Job.expire {τ J : Type} (now : τ) (r : Job τ J) : Job τ J :=
  { r with
    status := .expired
    error := some "Job expired (exceeded time limit)"
    completedAt := some now }

theorem Job.claim_id {τ J : Type} (now : τ) (r : Job τ J) : (r.claim now).id = r.id := rfl

/-- Where a worker is inside `_db_execute_one`. -/
inductive Phase where
  /-- Claimed by the poll, `dispatch_job` not yet called. -/
  | claimed
  | dispatched
  /-- In the `except` branch, with the text of the exception. -/
  | excepting (error : String)
  /-- Marked expired, waiting for the operation's thread to end. -/
  | draining
deriving DecidableEq, Repr

/-- A job a worker has in hand. A serial batch runs one job after the other
and is dropped when one of them lets an exception out. -/
structure Execution (J : Type) where
  worker : Nat
  serial : Bool
  job : JobDict J
  phase : Phase
deriving DecidableEq

structure JobService (τ J : Type) where
  jobs : JobTable τ J
  inFlight : List (Execution J)

/-- The parameters of `submit`, with the id and the times it computes. -/
structure Submission (τ J : Type) where
  id : String
  tenantId : String
  projectId : String
  operation : String
  params : J
  now : τ
  expires : τ
  maxExecutionSeconds : Option Int

def Submission.row {τ J : Type} (sub : Submission τ J) : Job τ J where
  id := sub.id
  tenantId := sub.tenantId
  projectId := sub.projectId
  operation := sub.operation
  params := sub.params
  status := .pending
  result := none
  error := none
  attempts := 0
  maxAttempts := 3
  createdAt := sub.now
  scheduledAt := none
  startedAt := none
  completedAt := none
  expiresAt := some sub.expires
  maxExecutionSeconds := sub.maxExecutionSeconds

/-- The statements `_db_execute_one` writes a job's outcome with. -/
inductive Outcome (τ J : Type) where
  | completed (result : J) (now : τ)
  | failed (error : String) (now : τ)
  | pending (scheduled : τ)
  | expired (error : String) (now : τ)

def Outcome.set {τ J : Type} : Outcome τ J → Job τ J → Job τ J
  | .completed result now, r =>
      { r with status := .completed, result := some result, completedAt := some now }
  | .failed error now, r =>
      { r with status := .failed, error := some error, completedAt := some now }
  | .pending scheduled, r => { r with status := .pending, scheduledAt := some scheduled }
  | .expired error now, r =>
      { r with status := .expired, error := some error, completedAt := some now }

/-- The status the statement sets. -/
def Outcome.status {τ J : Type} : Outcome τ J → JobStatus
  | .completed _ _ => .completed
  | .failed _ _ => .failed
  | .pending _ => .pending
  | .expired _ _ => .expired

/-- What can happen next to a job in hand. A `fault` is the text of the
exception the statement raises instead of committing. -/
inductive WorkEvent (τ J : Type) where
  | dispatch
  | returned (result : J) (now : τ) (fault : Option String)
  | raised (error : String)
  | timedOut (now : τ) (fault : Option String)
  | drained
  | settle (now scheduled : τ) (fault : Option String)

inductive After where
  | next (phase : Phase)
  | leave
  | escape
deriving DecidableEq, Repr

/-- A serial batch calls the next job only when none of its own is running. -/
def Execution.mayStart {J : Type} (e : Execution J) (inFlight : List (Execution J)) : Bool :=
  !e.serial || inFlight.all fun x => x.worker ≠ e.worker || x.phase = .claimed

/-- `_db_execute_one`, one turn at a time: the statement that commits, if any,
and what becomes of the execution. -/
def Execution.advance {τ J : Type} (e : Execution J) (inFlight : List (Execution J)) :
    WorkEvent τ J → Option (Option (Outcome τ J) × After)
  | .dispatch =>
      if e.phase = .claimed ∧ e.mayStart inFlight then some (none, .next .dispatched) else none
  | .returned result now fault =>
      if e.phase = .dispatched then
        match fault with
        | none => some (some (.completed result now), .leave)
        | some error => some (none, .next (.excepting error))
      else none
  | .raised error =>
      if e.phase = .dispatched then some (none, .next (.excepting error)) else none
  | .timedOut now fault =>
      match e.phase, e.job.maxExecutionSeconds with
      | .dispatched, some maxExec =>
          match fault with
          | none =>
              some (some (.expired s!"Job exceeded max execution time ({maxExec}s)" now),
                .next .draining)
          | some error => some (none, .next (.excepting error))
      | _, _ => none
  | .drained => if e.phase = .draining then some (none, .leave) else none
  | .settle now scheduled fault =>
      match e.phase with
      | .excepting error =>
          match fault with
          | some _ => some (none, .escape)
          | none =>
              if e.job.attempts ≥ e.job.maxAttempts then
                some (some (.failed error now), .leave)
              else some (some (.pending scheduled), .leave)
      | _ => none

/-- What becomes of an execution when the one of `worker` on job `id` moves. -/
def After.move {J : Type} (after : After) (worker : Nat) (id : String) (x : Execution J) :
    Option (Execution J) :=
  if x.worker = worker ∧ x.job.id = id then
    match after with
    | .next phase => some { x with phase := phase }
    | .leave | .escape => none
  else if after = .escape ∧ x.worker = worker ∧ x.serial ∧ x.phase = .claimed then none
  else some x

namespace JobService
variable {τ J : Type}

def holder (s : JobService τ J) (worker : Nat) (id : String) : Option (Execution J) :=
  s.inFlight.find? fun x => x.worker = worker ∧ x.job.id = id

/-- `submit` with `_db_submit`. -/
def submit (s : JobService τ J) (sub : Submission τ J) : JobService τ J :=
  if sub.operation ∈ jobOperations then
    match s.jobs.insert sub.row with
    | some jobs => { s with jobs := jobs }
    | none => s
  else s

/-- `_db_cancel`. -/
def cancel (s : JobService τ J) (id tenantId projectId : String) (now : τ) :
    JobService τ J :=
  { s with
    jobs := s.jobs.update
      (fun r => r.id = id ∧ r.tenantId = tenantId ∧ r.projectId = projectId ∧
        r.status = .pending)
      (Job.cancel now) fun _ => rfl }

/-- `UPDATE jobs SET … WHERE id = :id`, if the turn writes at all. -/
def writeOutcome (jobs : JobTable τ J) (id : String) : Option (Outcome τ J) → JobTable τ J
  | some o => jobs.update (fun r => r.id = id) o.set fun _ => by cases o <;> rfl
  | none => jobs

/-- The turn of one execution. -/
def work (s : JobService τ J) (worker : Nat) (id : String) (event : WorkEvent τ J) :
    JobService τ J :=
  match s.holder worker id with
  | none => s
  | some e =>
      match e.advance s.inFlight event with
      | none => s
      | some (outcome, after) =>
          { jobs := writeOutcome s.jobs id outcome
            inFlight := s.inFlight.filterMap (after.move worker id) }

variable [LinearOrder τ]

def pollable (now : τ) (r : Job τ J) : Bool :=
  r.status = .pending ∧ r.attempts < r.maxAttempts ∧
    (r.scheduledAt.isNone ∨ r.scheduledAt.any (· ≤ now))

/-- The ids the inner `SELECT … FOR UPDATE SKIP LOCKED` of the poll returns. -/
def selected (s : JobService τ J) (batch : Nat) (now : τ) (locked : String → Bool) :
    List String :=
  (((s.jobs.rows.filter fun r => pollable now r && !locked r.id).insertionSort
    fun a b => a.createdAt ≤ b.createdAt).take batch).map (·.id)

/-- The claim of `_db_poll_and_execute`. Without an executor, or with a single
job, `_run_jobs` runs the batch serially. -/
def poll (s : JobService τ J) (worker batch : Nat) (executor : Bool) (now : τ)
    (locked : String → Bool) : JobService τ J :=
  let ids := s.selected batch now locked
  let rows := s.jobs.returning (fun r => r.id ∈ ids) (Job.claim now)
  { jobs := s.jobs.update (fun r => r.id ∈ ids) (Job.claim now) (Job.claim_id now)
    inFlight := s.inFlight ++ rows.map fun r =>
      { worker := worker
        serial := !executor || rows.length = 1
        job := r.toDict
        phase := .claimed } }

/-- `_db_reap_expired`. -/
def reap (s : JobService τ J) (now : τ) : JobService τ J :=
  { s with
    jobs := s.jobs.update (fun r => r.status = .running ∧ r.expiresAt.any (· < now))
      (Job.expire now) fun _ => rfl }

end JobService

inductive Action (τ J : Type) where
  | submit (sub : Submission τ J)
  | poll (worker batch : Nat) (executor : Bool) (now : τ) (locked : String → Bool)
  | work (worker : Nat) (id : String) (event : WorkEvent τ J)
  | cancel (id tenantId projectId : String) (now : τ)
  | reap (now : τ)

/-- A worker polls again only when its last batch is done. -/
def JobService.idle {τ J : Type} (s : JobService τ J) (worker : Nat) : Bool :=
  s.inFlight.all fun x => x.worker ≠ worker

def step {τ J : Type} [LinearOrder τ] (s : JobService τ J) : Action τ J → JobService τ J
  | .submit sub => s.submit sub
  | .poll worker batch executor now locked =>
      if s.idle worker then s.poll worker batch executor now locked else s
  | .work worker id event => s.work worker id event
  | .cancel id tenantId projectId now => s.cancel id tenantId projectId now
  | .reap now => s.reap now

end Engramia.Jobs
