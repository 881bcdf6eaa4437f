import Engramia.Evaluation.Tools
import Engramia.Billing.Webhook
import Engramia.Jobs.Service

/-!
The three ways into `Memory.evaluate`: the REST route, the job it may hand
the work to, and the MCP tool. The history records every evaluation that
completes, by tenant and month; the counters of the month are right when they
have grown by just that.
-/
namespace Engramia.Evaluation

open Engramia.Library Engramia.Billing Engramia.Jobs

inductive Evaluated (J : Type) where
  | returned (result : J)
  | providerError
  | raised (error : String)

/-- One request to `POST /evaluate`. `respondAsync` is the job `_try_async`
would submit, `evaluated` how `memory.evaluate` ends if it is reached, in the
month `period`. -/
structure EvaluateRequest (τ J : Type) where
  auth : Option AuthContext
  reads : CheckReads
  respondAsync : Option (Submission τ J)
  evaluated : Evaluated J
  period : Period
  incrementFails : Bool

inductive EvaluateResponse (J : Type) where
  | ok (result : J)
  | accepted (jobId : String)
  | forbidden (role permission : String)
  | refused (error : HttpError)
  | providerNotConfigured
  | serverError (error : String)

/-- The billing tables and the job service next to them. -/
structure Platform (τ J : Type) where
  world : World
  service : JobService τ J

variable {τ J : Type}

def EvaluateRequest.tenantId (req : EvaluateRequest τ J) : String :=
  match req.auth with
  | some auth => auth.tenantId
  | none => "default"

def EvaluateRequest.permitted (req : EvaluateRequest τ J) : Bool :=
  req.auth.all fun auth => permits auth.role "evaluate"

/-- The route handler `evaluate` behind `require_permission("evaluate")`. -/
def evaluate (s : Platform τ J) (req : EvaluateRequest τ J) :
    Platform τ J × EvaluateResponse J :=
  if ¬ req.permitted then
    (s, .forbidden ((req.auth.map (·.role)).getD "") "evaluate")
  else
    match billingCheckEvalRuns req.reads s.world req.tenantId with
    | .error e => (s, .refused e)
    | .ok () =>
        match req.respondAsync with
        | some sub =>
            ({ s with service := s.service.submit { sub with operation := "evaluate" } },
              .accepted sub.id)
        | none =>
            match req.evaluated with
            | .providerError => (s, .providerNotConfigured)
            | .raised error => (s, .serverError error)
            | .returned result =>
                ({ s with world := increment req.incrementFails s.world req.tenantId req.period },
                  .ok result)

inductive EvaluationAction (τ J : Type) where
  | evaluate (req : EvaluateRequest τ J)
  /-- A step of the job service, taken in the month `period`. -/
  | job (period : Period) (a : Jobs.Action τ J)
  | callTool (period : Period) (call : ToolCall J)

namespace Platform

def step [LinearOrder τ] (s : Platform τ J) : EvaluationAction τ J → Platform τ J
  | .evaluate req => (Evaluation.evaluate s req).1
  | .job _ a => { s with service := Jobs.step s.service a }
  | .callTool _ _ => s

/-- The evaluations the action completes, with tenant and month: those in
which `Memory.evaluate` returns. -/
def completed (s : Platform τ J) : EvaluationAction τ J → List (String × Period)
  | .evaluate req =>
      match (Evaluation.evaluate s req).2 with
      | .ok _ => [(req.tenantId, req.period)]
      | _ => []
  | .job period (.work worker id (.returned _ _ _)) =>
      match s.service.holder worker id with
      | some e =>
          if e.phase = .dispatched ∧ e.job.operation = "evaluate" then
            [(e.job.tenantId, period)]
          else []
      | none => []
  | .job _ _ => []
  | .callTool period call =>
      match Evaluation.callTool s.world call with
      | .ok _ => if call.name = "engramia_evaluate" then [(call.auth.tenantId, period)] else []
      | .error _ => []

/-- The history of a run: every evaluation completed so far. -/
def record (s : Platform τ J) (done : List (String × Period)) (a : EvaluationAction τ J) :
    List (String × Period) :=
  done ++ s.completed a

end Platform

/-- The counters have grown by the completed evaluations, and the quota check
admits as if it had counted these itself. -/
structure MeteredOnce (before : World) (st : Platform τ J × List (String × Period)) :
    Prop where
  counted : ∀ tenantId period,
    getCount false st.1.world tenantId period =
      getCount false before tenantId period + st.2.count (tenantId, period)
  checked : ∀ (reads : CheckReads) tenantId, reads.count = false →
    billingCheckEvalRuns reads st.1.world tenantId =
      checkEvalRuns reads.clock (getSubscription reads.subscription st.1.world tenantId)
        (getOverageSettings reads.overage st.1.world tenantId)
        (getCount false before tenantId reads.clock.period +
          st.2.count (tenantId, reads.clock.period))

/-- The evaluation comes over REST and is answered there, and the counter's
statement commits; a job or a tool call completes no evaluation. -/
def MeteredPath (s : Platform τ J) : EvaluationAction τ J → Prop
  | .evaluate req =>
      req.incrementFails = false ∨ s.completed (.evaluate req : EvaluationAction τ J) = []
  | .job period a => s.completed (.job period a) = []
  | .callTool period call => s.completed (.callTool period call : EvaluationAction τ J) = []

theorem meteredOnce_iff {before : World} {st : Platform τ J × List (String × Period)} :
    MeteredOnce before st ↔ ∀ tenantId period,
      getCount false st.1.world tenantId period =
        getCount false before tenantId period + st.2.count (tenantId, period) := by
  constructor
  · exact fun h => h.counted
  · intro h
    refine ⟨h, ?_⟩
    intro reads tenantId hread
    rw [billingCheckEvalRuns, hread, h]

theorem meteredOnce_start (w : World) (service : JobService τ J) :
    MeteredOnce w ((⟨w, service⟩, []) : Platform τ J × List (String × Period)) := by
  rw [meteredOnce_iff]
  intro tenantId period
  simp

/-- A successful REST evaluation runs its increment, anything else leaves the
counters alone. -/
theorem evaluate_world (s : Platform τ J) (req : EvaluateRequest τ J) :
    (s.completed (.evaluate req : EvaluationAction τ J) = [(req.tenantId, req.period)] ∧
      (evaluate s req).1.world = increment req.incrementFails s.world req.tenantId req.period) ∨
    (s.completed (.evaluate req : EvaluationAction τ J) = [] ∧
      (evaluate s req).1.world = s.world) := by
  simp only [Platform.completed, evaluate]
  by_cases hperm : req.permitted
  · simp only [hperm, not_true_eq_false, if_false]
    cases billingCheckEvalRuns req.reads s.world req.tenantId with
    | error e => exact .inr ⟨rfl, rfl⟩
    | ok u =>
        cases req.respondAsync with
        | some sub => exact .inr ⟨rfl, rfl⟩
        | none =>
            cases req.evaluated with
            | providerError | raised error => exact .inr ⟨rfl, rfl⟩
            | returned result => exact .inl ⟨rfl, rfl⟩
  · simp only [hperm]
    exact .inr ⟨rfl, rfl⟩

/-- From exact counters a step keeps them exact just when the evaluations it
completes are the ones it counts. -/
theorem meteredOnce_step_iff {before : World} {st : Platform τ J × List (String × Period)}
    {world : World} {done : List (String × Period)} {service : JobService τ J}
    (h : MeteredOnce before st) (counted : List (String × Period))
    (hworld : ∀ tenantId period, getCount false world tenantId period =
      getCount false st.1.world tenantId period + counted.count (tenantId, period)) :
    MeteredOnce before ((⟨world, service⟩, st.2 ++ done)) ↔
      ∀ tenantId period,
        counted.count (tenantId, period) = done.count (tenantId, period) := by
  rw [meteredOnce_iff]
  refine forall_congr' fun tenantId => forall_congr' fun period => ?_
  rw [hworld, h.counted, List.count_append]
  omega

theorem count_nil_iff {done : List (String × Period)} :
    (∀ tenantId period, ([] : List (String × Period)).count (tenantId, period) =
      done.count (tenantId, period)) ↔ done = [] := by
  constructor
  · intro h
    cases done with
    | nil => rfl
    | cons d rest =>
        have hcount := h d.1 d.2
        rw [List.count_cons_self] at hcount
        cases hcount
  · rintro rfl
    exact fun _ _ => rfl

theorem meteredOnce_step [LinearOrder τ] {before : World}
    {st : Platform τ J × List (String × Period)} (h : MeteredOnce before st)
    (a : EvaluationAction τ J) :
    MeteredOnce before (withHistory Platform.step Platform.record st a) ↔
      MeteredPath st.1 a := by
  cases a with
  | evaluate req =>
      rcases evaluate_world st.1 req with ⟨hdone, hworld⟩ | ⟨hdone, hworld⟩
      · cases hfails : req.incrementFails with
        | false =>
            have hcount (t : String) (p : Period) :
                getCount false (evaluate st.1 req).1.world t p =
                  getCount false st.1.world t p +
                    [(req.tenantId, req.period)].count (t, p) := by
              rw [hworld, hfails, getCount_increment, List.count_singleton]
              simp only [beq_iff_eq, Prod.mk.injEq, eq_comm (a := t), eq_comm (a := p)]
            refine (meteredOnce_step_iff h _ hcount).trans ?_
            rw [hdone]
            simp [MeteredPath, hfails]
        | true =>
            have hsame (t : String) (p : Period) :
                getCount false (evaluate st.1 req).1.world t p =
                  getCount false st.1.world t p +
                    ([] : List (String × Period)).count (t, p) := by
              rw [hworld, hfails]
              rfl
            refine (meteredOnce_step_iff h _ hsame).trans (count_nil_iff.trans ?_)
            simp [MeteredPath, hfails]
      · have hsame (t : String) (p : Period) :
            getCount false (evaluate st.1 req).1.world t p =
              getCount false st.1.world t p +
                ([] : List (String × Period)).count (t, p) := by
          rw [hworld]
          rfl
        refine (meteredOnce_step_iff h _ hsame).trans (count_nil_iff.trans ?_)
        simp [MeteredPath, hdone]
  | job period a =>
      exact (meteredOnce_step_iff h [] fun _ _ => rfl).trans count_nil_iff
  | callTool period call =>
      exact (meteredOnce_step_iff h [] fun _ _ => rfl).trans count_nil_iff

theorem metered_run_iff [LinearOrder τ] (w : World) (jobs : JobTable τ J)
    (run : List (EvaluationAction τ J)) :
    Always (withHistory Platform.step Platform.record) (MeteredOnce w)
      (⟨w, ⟨jobs, []⟩⟩, []) run ↔
    AllSteps (withHistory Platform.step Platform.record) (fun st a => MeteredPath st.1 a)
      (⟨w, ⟨jobs, []⟩⟩, []) run :=
  always_iff_allSteps (P := MeteredOnce w) (fun _ a h => meteredOnce_step h a)
    (meteredOnce_start w ⟨jobs, []⟩) run

section Sample

def acmeReads : CheckReads := ⟨⟨0, ⟨2026, 1⟩⟩, {}, false, false⟩

/-- One evaluation run as a job and one by an MCP client. -/
def acmeEvaluations : List (EvaluationAction Nat String) :=
  [.evaluate
      { auth := some ⟨"acme", "editor", "pro"⟩
        reads := acmeReads
        respondAsync :=
          some
            { id := "job-1", tenantId := "acme", projectId := "default", operation := "evaluate"
              params := "{}", now := 0, expires := 3600, maxExecutionSeconds := none }
        evaluated := .providerError
        period := ⟨2026, 1⟩
        incrementFails := false },
    .job ⟨2026, 1⟩ (.poll 1 1 false 10 fun _ => false),
    .job ⟨2026, 1⟩ (.work 1 "job-1" .dispatch),
    .job ⟨2026, 1⟩ (.work 1 "job-1" (.returned "{}" 20 none)),
    .callTool ⟨2026, 1⟩
      ⟨"engramia_evaluate", ⟨"acme", "editor", "team"⟩, acmeReads, 0, .ok "{}"⟩]

/-- Two evaluations complete in January and the counter of January stays at
nothing. -/
theorem job_and_tool_evaluations_unmetered :
    ¬ Always (withHistory Platform.step Platform.record) (MeteredOnce acmePaidWorld)
      (⟨acmePaidWorld, ⟨⟨[], List.nodup_nil⟩, []⟩⟩, []) acmeEvaluations := by
  intro h
  have hcount := (Always.last h).counted "acme" ⟨2026, 1⟩
  revert hcount
  decide +kernel

end Sample

end Engramia.Evaluation
