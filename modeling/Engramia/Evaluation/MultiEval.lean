import Mathlib.Data.List.DropRight
import Mathlib.Data.List.FinRange
import Mathlib.Data.List.Infix
import Mathlib.Data.Rat.Floor
import Engramia.Library.ContextRun
import Engramia.Library.Rounding
import Engramia.Patterns.EvalHistory

/-!
`MultiEvaluator.evaluate`. The evaluations of a call run in the threads of a pool, all of them
inside the one context that the call has copied. An evaluation that starts while another one
is inside that context is refused, and the call raises the refusal. The call does its work
when no two evaluations overlap, and in every schedule only when there is one of them.
-/
namespace Engramia.Evaluation
open Engramia.Library Engramia.Patterns Engramia.Storage

section Scores

/-- A score of a dimension. -/
abbrev Points := { x : ℚ // 0 ≤ x ∧ x ≤ 10 }

/-- `_clamp` -/
def clamp (v : ℚ) : Points :=
  ⟨max 0 (min 10 v), le_max_left _ _, max_le (by norm_num) (min_le_left _ _)⟩

/-- The JSON object of an evaluator's answer. -/
structure RawScore where
  taskAlignment : Option ℚ
  codeQuality : Option ℚ
  workspaceUsage : Option ℚ
  robustness : Option ℚ
  overall : Option ℚ
  feedback : Option Text

structure EvalScore where
  taskAlignment : Points
  codeQuality : Points
  workspaceUsage : Points
  robustness : Points
  overall : Points
  feedback : Text

/-- `_parse_score` -/
def parseScore (raw : RawScore) : EvalScore where
  taskAlignment := clamp (raw.taskAlignment.getD 5)
  codeQuality := clamp (raw.codeQuality.getD 5)
  workspaceUsage := clamp (raw.workspaceUsage.getD 5)
  robustness := clamp (raw.robustness.getD 5)
  overall := clamp (raw.overall.getD 5)
  feedback := raw.feedback.getD []

/-- `_single_eval`: two attempts. An answer of the provider is the object it holds, or
nothing where the call, the extraction or the parsing raises. -/
def singleEval : Body (Fin 2) (Option RawScore) (Option EvalScore) where
  start := 0
  advance attempt answer :=
    match answer with
    | some raw => .inr (some (parseScore raw))
    | none => if attempt = 1 then .inr none else .inl (attempt + 1)

end Scores

section Results

def highVarianceThreshold : ℚ := 3 / 2

def adversarialMinLen : Nat := 10

/-- `_check_adversarial` -/
def checkAdversarial (T : TextMethods) (code : Text) : Option Text → Bool
  | none => false
  | some output =>
      let snippet := ((output.dropWhile T.isspace).rdropWhile T.isspace).take adversarialMinLen
      output ≠ [] ∧ adversarialMinLen ≤ snippet.length ∧ snippet <:+: code

structure EvalResult where
  scores : List EvalScore
  medianScore : Points
  variance : { x : ℚ // 0 ≤ x }
  highVariance : Bool
  feedback : Text
  adversarialDetected : Bool

inductive EvalError where
  | allFailed
  | alreadyEntered
deriving DecidableEq

/-- `max(xs) - min(xs)` -/
def spread (xs : List ℚ) (h : xs ≠ []) : ℚ :=
  xs.max h - xs.min h

/-- The first of the scores with the lowest `overall`. -/
def worst (first : EvalScore) (rest : List EvalScore) : EvalScore :=
  rest.foldl (fun best s => if s.overall < best.overall then s else best) first

def overallScores (scores : List EvalScore) : List ℚ := scores.map fun s => s.overall.val

theorem overallScores_ne_nil (first : EvalScore) (rest : List EvalScore) :
    overallScores (first :: rest) ≠ [] :=
  List.cons_ne_nil _ _

theorem roundedMedian_points (first : EvalScore) (rest : List EvalScore) :
    0 ≤ roundTo 2 (median (overallScores (first :: rest))) ∧
      roundTo 2 (median (overallScores (first :: rest))) ≤ 10 := by
  have hpoints : ∀ x ∈ overallScores (first :: rest), 0 ≤ x ∧ x ≤ 10 := by
    intro x hx
    obtain ⟨s, _, rfl⟩ := List.mem_map.mp hx
    exact s.overall.property
  have hbounds := median_bounds (overallScores_ne_nil first rest) hpoints
  exact ⟨le_roundTo (hasDecimals_zero 2) hbounds.1,
    roundTo_le (mod_cast hasDecimals_intCast 2 10) hbounds.2⟩

theorem roundedSpread_nonneg (xs : List ℚ) (h : xs ≠ []) : 0 ≤ roundTo 2 (spread xs h) :=
  le_roundTo (hasDecimals_zero 2)
    (sub_nonneg.mpr (List.min_le_of_mem (List.max_mem h)))

/-- The result over the scores of the evaluations that had one. The proofs are the checks
of its fields. -/
def aggregate (T : TextMethods) (code : Text) (output : Option Text) :
    List EvalScore → Except EvalError EvalResult
  | [] => .error .allFailed
  | first :: rest =>
      let overall := overallScores (first :: rest)
      let variance := spread overall (overallScores_ne_nil first rest)
      .ok
        { scores := first :: rest
          medianScore := ⟨roundTo 2 (median overall), roundedMedian_points first rest⟩
          variance := ⟨roundTo 2 variance, roundedSpread_nonneg _ _⟩
          highVariance := highVarianceThreshold < variance
          feedback := (worst first rest).feedback
          adversarialDetected := checkAdversarial T code output }

/-- The results of the futures in the order `as_completed` yields them, which is when they
have ended. The first that holds an exception raises it. -/
def collect {n : Nat} (tasks : Fin n → Task (Fin 2) (Option EvalScore)) :
    List (Fin n) → Except EvalError (List EvalScore)
  | [] => .ok []
  | i :: order =>
      match tasks i with
      | .refused => .error .alreadyEntered
      | .finished (some score) => (score :: ·) <$> collect tasks order
      | .finished none | .waiting | .inside _ => collect tasks order

end Results

section Calls
variable {κ : Type} [DecidableEq κ] (T : TextMethods)

structure MultiEvaluator where
  numEvals : Nat
  positive : 1 ≤ numEvals

abbrev EvalPool (κ : Type) (n : Nat) : Type := Pool (Fin n) κ (Fin 2) (Option EvalScore)

abbrev EvalTurn (n : Nat) : Type := Turn (Fin n) (Option RawScore)

/-- The evaluations of a call after some turns of its threads. -/
def evalPool {n : Nat} (contextOf : Fin n → κ) (run : List (EvalTurn n)) : EvalPool κ n :=
  exec (Pool.turn contextOf singleEval) Pool.submitted run

/-- `evaluate`, once all of its evaluations have ended. -/
def MultiEvaluator.evaluate {n : Nat} (contextOf : Fin n → κ) (code : Text) (output : Option Text)
    (run : List (EvalTurn n)) (order : List (Fin n)) : Except EvalError EvalResult := do
  let scores ← collect (evalPool contextOf run).tasks order
  aggregate T code output scores

/-- The one context that `evaluate` copies. -/
def sharedContext {n : Nat} : Fin n → Unit := fun _ => ()

def AllEnded {n : Nat} (contextOf : Fin n → κ) (run : List (EvalTurn n)) : Prop :=
  ∀ i, ((evalPool contextOf run).tasks i).Ended

/-- Every evaluation runs to its result, and the call returns when one of them has a score
and raises only when all of them failed. -/
structure Evaluates {n : Nat} (contextOf : Fin n → κ) (run : List (EvalTurn n)) : Prop where
  runs : ∀ i, ∃ r, (evalPool contextOf run).tasks i = .finished r
  returns : ∀ code output order, order.Perm (List.finRange n) →
    (∃ i score, (evalPool contextOf run).tasks i = .finished (some score)) →
      ∃ result, MultiEvaluator.evaluate T contextOf code output run order = .ok result
  raises : ∀ code output order e, order.Perm (List.finRange n) →
    MultiEvaluator.evaluate T contextOf code output run order = .error e →
      e = .allFailed ∧ ∀ i, (evalPool contextOf run).tasks i = .finished none

end Calls

section Outcomes
variable {n : Nat} {tasks : Fin n → Task (Fin 2) (Option EvalScore)} {T : TextMethods}

theorem collect_finished (order : List (Fin n)) (h : ∀ i, ∃ r, tasks i = .finished r) :
    ∃ scores, collect tasks order = .ok scores ∧
      (scores = [] ↔ ∀ i ∈ order, tasks i = .finished none) := by
  induction order with
  | nil => exact ⟨[], rfl, by simp⟩
  | cons i order ih =>
      obtain ⟨scores, hscores, hnil⟩ := ih
      obtain ⟨r, hr⟩ := h i
      cases r with
      | none => exact ⟨scores, by simp only [collect, hr, hscores], by simp [hr, hnil]⟩
      | some score =>
          refine ⟨score :: scores, ?_, by simp [hr]⟩
          simp only [collect, hr, hscores]
          rfl

theorem aggregate_error {code : Text} {output : Option Text} {scores : List EvalScore}
    {e : EvalError} (h : aggregate T code output scores = .error e) :
    scores = [] ∧ e = .allFailed := by
  cases scores with
  | nil =>
      cases h
      exact ⟨rfl, rfl⟩
  | cons first rest => cases h

end Outcomes

section Schedules
variable {κ : Type} [DecidableEq κ] {T : TextMethods} {n : Nat} {contextOf : Fin n → κ}
  {run : List (EvalTurn n)}

theorem evaluates_of_noneRefused (hended : AllEnded contextOf run)
    (hnone : (evalPool contextOf run).NoneRefused) : Evaluates T contextOf run := by
  have hruns : ∀ i, ∃ r, (evalPool contextOf run).tasks i = .finished r := by
    intro i
    have hi := hended i
    cases htask : (evalPool contextOf run).tasks i with
    | waiting | inside b =>
        rw [htask] at hi
        exact hi.elim
    | refused => exact (hnone i htask).elim
    | finished r => exact ⟨r, rfl⟩
  refine ⟨hruns, ?_, ?_⟩
  · intro code output order horder hscore
    obtain ⟨i, score, hi⟩ := hscore
    obtain ⟨scores, hcollect, hnil⟩ := collect_finished order hruns
    rw [MultiEvaluator.evaluate, hcollect]
    cases scores with
    | nil =>
        have hnone := hnil.mp rfl i (horder.mem_iff.mpr (List.mem_finRange i))
        rw [hi] at hnone
        cases hnone
    | cons first rest => exact ⟨_, rfl⟩
  · intro code output order e horder herror
    obtain ⟨scores, hcollect, hnil⟩ := collect_finished order hruns
    rw [MultiEvaluator.evaluate, hcollect] at herror
    obtain ⟨hempty, he⟩ := aggregate_error herror
    exact ⟨he, fun i => hnil.mp hempty i (horder.mem_iff.mpr (List.mem_finRange i))⟩

theorem evaluates_iff_alone (hended : AllEnded contextOf run) :
    Evaluates T contextOf run ↔
      AllSteps (Pool.turn contextOf singleEval) (Alone contextOf) Pool.submitted run := by
  have hiff : (evalPool contextOf run).NoneRefused ↔
      AllSteps (Pool.turn contextOf singleEval) (Alone contextOf) Pool.submitted run :=
    noneRefused_exec_iff submitted_entered (fun _ h => by cases h) run
  rw [← hiff]
  constructor
  · intro h i hi
    obtain ⟨r, hr⟩ := h.runs i
    rw [hi] at hr
    cases hr
  · exact evaluates_of_noneRefused hended

theorem allEnded_of_served (h : ∀ i, Served i 2 run) : AllEnded contextOf run := by
  intro i
  have hbudget : ∀ (attempt : Fin 2) (answer : Option RawScore) (next : Fin 2),
      singleEval.advance attempt answer = .inl next → 1 - next.val < 1 - attempt.val := by
    intro attempt answer next hnext
    cases answer with
    | some raw => cases hnext
    | none =>
        by_cases hlast : attempt = 1
        · simp [singleEval, hlast] at hnext
        · simp only [singleEval, hlast, if_false, Sum.inl.injEq] at hnext
          omega
  exact ended_of_served rfl hbudget (h i)

theorem evaluates_of_injective (h : Function.Injective contextOf)
    (hended : AllEnded contextOf run) : Evaluates T contextOf run :=
  (evaluates_iff_alone hended).mpr (alone_of_injective h run)

end Schedules

section Overlap
variable {T : TextMethods}

/-- The turns of an evaluation that fails twice. -/
def failingEval {n : Nat} (i : Fin n) : List (EvalTurn n) :=
  [.enter i, .outcome i none, .outcome i none]

theorem served_of_failing {n : Nat} {run : List (EvalTurn n)} {i : Fin n}
    (h : (failingEval i).Sublist run) : Served i 2 run :=
  ⟨[none, none], rfl, h⟩

/-- Two evaluations that start one after the other, and then all of them. -/
def overlappingRun {n : Nat} (i j : Fin n) : List (EvalTurn n) :=
  .enter i :: .enter j :: (List.finRange n).flatMap failingEval

theorem overlappingRun_served {n : Nat} (i j k : Fin n) : Served k 2 (overlappingRun i j) := by
  apply served_of_failing
  have hmem : failingEval k ∈ (List.finRange n).map failingEval :=
    List.mem_map.mpr ⟨k, List.mem_finRange k, rfl⟩
  have hsub : (failingEval k).Sublist ((List.finRange n).flatMap failingEval) :=
    List.sublist_flatten_of_mem hmem
  exact (hsub.cons _).cons _

theorem overlappingRun_not_alone {n : Nat} {i j : Fin n} (h : i ≠ j) :
    ¬ AllSteps (Pool.turn sharedContext singleEval) (Alone sharedContext) Pool.submitted
      (overlappingRun i j) := by
  intro hall
  have hwait : (Pool.turn sharedContext singleEval Pool.submitted (.enter i)).tasks j =
      .waiting := by
    simp [Pool.turn, Pool.submitted, h.symm]
  have hinside : (Pool.turn sharedContext singleEval Pool.submitted (.enter i)).Inside i :=
    ⟨0, by simp [Pool.turn, Pool.submitted, singleEval]⟩
  exact hall.2.1 hwait i hinside rfl

/-- A call does its work in a schedule exactly when no evaluation starts while another one is
inside the context, and in every schedule exactly when there is only one of them. A schedule
in which each evaluation starts and has two answers ends all of them. -/
theorem evaluate_iff (m : MultiEvaluator) :
    (∀ run : List (EvalTurn m.numEvals), AllEnded sharedContext run →
      (Evaluates T sharedContext run ↔
        AllSteps (Pool.turn sharedContext singleEval) (Alone sharedContext) Pool.submitted run)) ∧
    ((∀ run : List (EvalTurn m.numEvals), AllEnded sharedContext run →
      Evaluates T sharedContext run) ↔ m.numEvals = 1) ∧
    ∀ run : List (EvalTurn m.numEvals), (∀ i, Served i 2 run) → AllEnded sharedContext run := by
  refine ⟨fun run hended => evaluates_iff_alone hended, ?_, fun run => allEnded_of_served⟩
  constructor
  · intro hall
    by_contra hne
    have hpos := m.positive
    have hlt : 1 < m.numEvals := by omega
    let i : Fin m.numEvals := ⟨0, by omega⟩
    let j : Fin m.numEvals := ⟨1, hlt⟩
    have hij : i ≠ j := by
      intro heq
      cases congrArg Fin.val heq
    have hended : AllEnded sharedContext (overlappingRun i j) :=
      allEnded_of_served (overlappingRun_served i j)
    exact overlappingRun_not_alone hij ((evaluates_iff_alone hended).mp (hall _ hended))
  · intro hone run hended
    refine evaluates_of_injective ?_ hended
    intro i j _
    have hi := i.isLt
    have hj := j.isLt
    apply Fin.ext
    omega

/-- An answer with the middle score in every dimension. -/
def middleAnswer : RawScore := ⟨none, none, none, none, none, none⟩

/-- The second of three evaluations starts while the first one is at work. The other two
succeed, and the call raises. -/
theorem overlapping_evaluations_raise :
    ∃ run : List (EvalTurn 3), AllEnded sharedContext run ∧
      (evalPool sharedContext run).tasks 0 = .finished (some (parseScore middleAnswer)) ∧
      (evalPool sharedContext run).tasks 1 = .refused ∧
      (evalPool sharedContext run).tasks 2 = .finished (some (parseScore middleAnswer)) ∧
      ∀ T code output, MultiEvaluator.evaluate T sharedContext code output run [1, 0, 2] =
        .error .alreadyEntered := by
  refine ⟨[.enter 0, .enter 1, .outcome 0 (some middleAnswer), .enter 2,
    .outcome 2 (some middleAnswer)], ?_, rfl, rfl, rfl, fun _ _ _ => rfl⟩
  exact Fin.forall_fin_succ.mpr ⟨trivial, Fin.forall_fin_two.mpr ⟨trivial, trivial⟩⟩

end Overlap

end Engramia.Evaluation
