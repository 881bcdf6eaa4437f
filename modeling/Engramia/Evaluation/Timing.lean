import Engramia.Evaluation.MultiEval

/-!
What an evaluation owes to the timing of its threads. The scores of a call are listed in the
order in which its evaluations complete. Another order permutes them, which leaves the median
and the spread as they are, but the record that is saved has the dimensions of the first score
of the list, and of the lowest scores the first one gives the feedback.
-/
namespace Engramia.Evaluation
open Engramia.Library Engramia.Patterns Engramia.Storage

section Service

/-- `_MAX_NUM_EVALS` -/
def maxNumEvals : ℤ := 10

/-- The number of evaluations that a call runs. -/
def poolSize (numEvals : ℤ) : ℕ := (min numEvals maxNumEvals).toNat

structure Dimensions where
  taskAlignment : Points
  codeQuality : Points
  workspaceUsage : Points
  robustness : Points
deriving DecidableEq

def EvalScore.dimensions (s : EvalScore) : Dimensions where
  taskAlignment := s.taskAlignment
  codeQuality := s.codeQuality
  workspaceUsage := s.workspaceUsage
  robustness := s.robustness

def Dimensions.zero : Dimensions where
  taskAlignment := clamp 0
  codeQuality := clamp 0
  workspaceUsage := clamp 0
  robustness := clamp 0

structure EvaluateCall where
  task : Text
  code : Text
  output : Option Text
  numEvals : ℤ
  patternKey : Option Text

/-- The arguments of `EvalStore.save`. -/
structure SavedEval where
  agentName : Text
  task : Text
  overall : Points
  dimensions : Dimensions
  feedback : Text

/-- What a call returns, the record it saves and the feedback it records. -/
structure EvaluateOutcome where
  result : EvalResult
  saved : SavedEval
  recorded : Option Text

inductive EvaluateError where
  | numEvals
  | evaluation (e : EvalError)
deriving DecidableEq

/-- What `EvaluationService.evaluate` does with a result. The digest is that of the code, cut to
twelve characters. -/
def recordResult (digest : Text → Text) (call : EvaluateCall) (result : EvalResult) :
    EvaluateOutcome where
  result := result
  saved :=
    { agentName := call.patternKey.getD (digest call.code)
      task := call.task
      overall := result.medianScore
      dimensions := (result.scores.head?.map EvalScore.dimensions).getD Dimensions.zero
      feedback := result.feedback }
  recorded := if result.feedback = [] then none else some result.feedback

/-- `EvaluationService.evaluate` -/
def EvaluationService.evaluate {κ : Type} [DecidableEq κ] (T : TextMethods)
    (digest : Text → Text) (call : EvaluateCall) (contextOf : Fin (poolSize call.numEvals) → κ)
    (run : List (EvalTurn (poolSize call.numEvals)))
    (order : List (Fin (poolSize call.numEvals))) : Except EvaluateError EvaluateOutcome :=
  if min call.numEvals maxNumEvals < 1 then .error .numEvals
  else
    match MultiEvaluator.evaluate T contextOf call.code call.output run order with
    | .error e => .error (.evaluation e)
    | .ok result => .ok (recordResult digest call result)

end Service

section Agreement

/-- The evaluations of a run all have a result, and complete with these in this order. -/
structure Completed {κ : Type} [DecidableEq κ] {n : ℕ} (contextOf : Fin n → κ)
    (run : List (EvalTurn n)) (order : List (Fin n)) (results : List (Option EvalScore)) :
    Prop where
  order_perm : order.Perm (List.finRange n)
  ended : order.map (evalPool contextOf run).tasks = results.map Task.finished

def Lowest (scores : List EvalScore) (s : EvalScore) : Prop :=
  s ∈ scores ∧ ∀ s' ∈ scores, s.overall ≤ s'.overall

/-- Two results agree in all but the order of their scores and the feedback, which is in both
that of a lowest score. -/
structure ResultsAgree (a b : EvalResult) : Prop where
  scores : a.scores.Perm b.scores
  medianScore : a.medianScore = b.medianScore
  variance : a.variance = b.variance
  highVariance : a.highVariance = b.highVariance
  adversarialDetected : a.adversarialDetected = b.adversarialDetected
  lowest_left : ∃ s, Lowest a.scores s ∧ a.feedback = s.feedback
  lowest_right : ∃ s, Lowest b.scores s ∧ b.feedback = s.feedback
  feedback : (∀ s s', Lowest a.scores s → Lowest a.scores s' → s.feedback = s'.feedback) →
    a.feedback = b.feedback
  eq_iff : a = b ↔ a.scores = b.scores

/-- The records of two calls agree in all but the feedback and the dimensions, which are in both
those of the score that completed first. -/
structure RecordsAgree (a b : EvaluateOutcome) : Prop where
  result : ResultsAgree a.result b.result
  agentName : a.saved.agentName = b.saved.agentName
  task : a.saved.task = b.saved.task
  overall : a.saved.overall = b.saved.overall
  dimensions_left : a.result.scores.head?.map EvalScore.dimensions = some a.saved.dimensions
  dimensions_right : b.result.scores.head?.map EvalScore.dimensions = some b.saved.dimensions
  dimensions :
    (∀ s ∈ a.result.scores, ∀ s' ∈ a.result.scores, s.dimensions = s'.dimensions) →
      a.saved.dimensions = b.saved.dimensions
  eq_iff : (a.saved = b.saved ∧ a.recorded = b.recorded) ↔
    a.saved.dimensions = b.saved.dimensions ∧ a.result.feedback = b.result.feedback

def OutcomesAgree :
    Except EvaluateError EvaluateOutcome → Except EvaluateError EvaluateOutcome → Prop
  | .ok a, .ok b => RecordsAgree a b
  | .error e, .error e' => e = e'
  | .ok _, .error _ | .error _, .ok _ => False

end Agreement

section Permutations
variable {xs ys : List ℚ}

theorem median_perm (h : xs.Perm ys) : median xs = median ys := by
  have hsorted : xs.insertionSort (· ≤ ·) = ys.insertionSort (· ≤ ·) := by
    apply List.Perm.eq_of_pairwise' (r := (· ≤ ·))
    · exact List.pairwise_insertionSort _ _
    · exact List.pairwise_insertionSort _ _
    · exact ((List.perm_insertionSort _ xs).trans h).trans (List.perm_insertionSort _ ys).symm
  rw [median, median, hsorted]

theorem spread_perm (h : xs.Perm ys) (hxs : xs ≠ []) (hys : ys ≠ []) :
    spread xs hxs = spread ys hys := by
  have hmax : xs.max hxs = ys.max hys := by
    apply le_antisymm
    · exact List.le_max_of_mem (h.mem_iff.mp (List.max_mem hxs))
    · exact List.le_max_of_mem (h.mem_iff.mpr (List.max_mem hys))
  have hmin : xs.min hxs = ys.min hys := by
    apply le_antisymm
    · exact List.min_le_of_mem (h.mem_iff.mpr (List.min_mem hys))
    · exact List.min_le_of_mem (h.mem_iff.mp (List.min_mem hxs))
  rw [spread, spread, hmax, hmin]

theorem worst_lowest (first : EvalScore) (rest : List EvalScore) :
    Lowest (first :: rest) (worst first rest) := by
  induction rest generalizing first with
  | nil =>
      refine ⟨List.mem_cons_self, ?_⟩
      intro s hs
      rw [List.mem_singleton.mp hs]
      exact le_refl _
  | cons second rest ih =>
      by_cases hlt : second.overall < first.overall
      · have hworst : worst first (second :: rest) = worst second rest := by
          simp only [worst, List.foldl_cons, if_pos hlt]
        obtain ⟨hmem, hle⟩ := ih second
        rw [hworst]
        refine ⟨List.mem_cons_of_mem _ hmem, ?_⟩
        intro s hs
        cases List.mem_cons.mp hs with
        | inl hs =>
            rw [hs]
            exact (hle second List.mem_cons_self).trans hlt.le
        | inr hs => exact hle s hs
      · have hworst : worst first (second :: rest) = worst first rest := by
          simp only [worst, List.foldl_cons, if_neg hlt]
        obtain ⟨hmem, hle⟩ := ih first
        rw [hworst]
        constructor
        · cases List.mem_cons.mp hmem with
          | inl hmem =>
              rw [hmem]
              exact List.mem_cons_self
          | inr hmem => exact List.mem_cons_of_mem _ (List.mem_cons_of_mem _ hmem)
        · intro s hs
          cases List.mem_cons.mp hs with
          | inl hs => exact hs ▸ hle first List.mem_cons_self
          | inr hs =>
              cases List.mem_cons.mp hs with
              | inl hs =>
                  rw [hs]
                  exact (hle first List.mem_cons_self).trans (not_lt.mp hlt)
              | inr hs => exact hle s (List.mem_cons_of_mem _ hs)

theorem Lowest.perm {scores scores' : List EvalScore} {s : EvalScore} (h : scores.Perm scores')
    (hs : Lowest scores s) : Lowest scores' s :=
  ⟨h.mem_iff.mp hs.1, fun s' hs' => hs.2 s' (h.mem_iff.mpr hs')⟩

end Permutations

section Outcomes
variable {κ : Type} [DecidableEq κ] {T : TextMethods} {n : ℕ} {contextOf : Fin n → κ}
  {run run' : List (EvalTurn n)} {order order' : List (Fin n)}
  {results results' : List (Option EvalScore)} {scores scores' : List EvalScore}
  {code : Text} {output : Option Text}

theorem collect_of_finished (tasks : Fin n → Task (Fin 2) (Option EvalScore))
    (h : order.map tasks = results.map Task.finished) :
    collect tasks order = .ok (results.filterMap id) := by
  induction order generalizing results with
  | nil =>
      cases results with
      | nil => rfl
      | cons r results => cases h
  | cons i order ih =>
      cases results with
      | nil => cases h
      | cons r results =>
          injection h with hi hrest
          rw [collect, hi, ih hrest]
          cases r with
          | none => rfl
          | some score => rfl

theorem Completed.evaluate (h : Completed contextOf run order results) :
    MultiEvaluator.evaluate T contextOf code output run order =
      aggregate T code output (results.filterMap id) := by
  rw [MultiEvaluator.evaluate, collect_of_finished _ h.ended]
  rfl

theorem aggregate_agree {a b : EvalResult} (h : scores.Perm scores')
    (ha : aggregate T code output scores = .ok a) (hb : aggregate T code output scores' = .ok b) :
    ResultsAgree a b := by
  cases scores with
  | nil => cases ha
  | cons first rest =>
      cases scores' with
      | nil => cases hb
      | cons first' rest' =>
          have hoverall : (overallScores (first :: rest)).Perm (overallScores (first' :: rest')) :=
            h.map _
          have hspread := spread_perm hoverall (overallScores_ne_nil first rest)
            (overallScores_ne_nil first' rest')
          cases ha
          cases hb
          refine
            { scores := h
              medianScore := Subtype.ext (congrArg (roundTo 2) (median_perm hoverall))
              variance := Subtype.ext (congrArg (roundTo 2) hspread)
              highVariance := ?_
              adversarialDetected := rfl
              lowest_left := ⟨_, worst_lowest first rest, rfl⟩
              lowest_right := ⟨_, worst_lowest first' rest', rfl⟩
              feedback := ?_
              eq_iff := ?_ }
          · simp only [hspread]
          · intro hsame
            exact hsame _ _ (worst_lowest first rest) ((worst_lowest first' rest').perm h.symm)
          · constructor
            · intro heq
              exact congrArg EvalResult.scores heq
            · intro heq
              injection heq with hfirst hrest
              subst hfirst hrest
              rfl

theorem aggregate_scores {a : EvalResult} (h : aggregate T code output scores = .ok a) :
    a.scores = scores ∧ scores ≠ [] := by
  cases scores with
  | nil => cases h
  | cons first rest =>
      cases h
      exact ⟨rfl, List.cons_ne_nil _ _⟩

theorem recordResult_agree (digest : Text → Text) (call : EvaluateCall) {a b : EvalResult}
    (h : ResultsAgree a b) (hne : a.scores ≠ []) :
    RecordsAgree (recordResult digest call a) (recordResult digest call b) := by
  have hne' : b.scores ≠ [] := by
    intro hnil
    have hperm := h.scores
    rw [hnil] at hperm
    exact hne hperm.eq_nil
  have hhead : ∀ r : EvalResult, r.scores ≠ [] →
      ∃ s ∈ r.scores, (recordResult digest call r).saved.dimensions = s.dimensions ∧
        r.scores.head?.map EvalScore.dimensions =
          some (recordResult digest call r).saved.dimensions := by
    intro r hr
    cases hscores : r.scores with
    | nil => exact absurd hscores hr
    | cons s rest =>
        refine ⟨s, List.mem_cons_self, ?_, ?_⟩
        · simp only [recordResult, hscores]
          rfl
        · simp only [recordResult, hscores]
          rfl
  obtain ⟨s, hs, hdims, hleft⟩ := hhead a hne
  obtain ⟨s', hs', hdims', hright⟩ := hhead b hne'
  refine
    { result := h
      agentName := rfl
      task := rfl
      overall := h.medianScore
      dimensions_left := hleft
      dimensions_right := hright
      dimensions := ?_
      eq_iff := ?_ }
  · intro hsame
    rw [hdims, hdims']
    exact hsame s hs s' (h.scores.mem_iff.mpr hs')
  · constructor
    · intro heq
      exact ⟨congrArg SavedEval.dimensions heq.1, congrArg SavedEval.feedback heq.1⟩
    · intro heq
      obtain ⟨hdimensions, hfeedback⟩ := heq
      have hfeedback : a.feedback = b.feedback := hfeedback
      constructor
      · rw [recordResult, recordResult] at hdimensions ⊢
        simp only at hdimensions ⊢
        rw [hdimensions, hfeedback, h.medianScore]
      · simp only [recordResult, hfeedback]

end Outcomes

section Timing
variable {κ : Type} [DecidableEq κ] {T : TextMethods}

/-- Two runs whose evaluations have the same results, completed in any two orders, have outcomes
that agree. -/
theorem evaluation_agrees (digest : Text → Text) (call : EvaluateCall)
    (contextOf : Fin (poolSize call.numEvals) → κ)
    (run run' : List (EvalTurn (poolSize call.numEvals)))
    (order order' : List (Fin (poolSize call.numEvals)))
    (results results' : List (Option EvalScore))
    (h : Completed contextOf run order results) (h' : Completed contextOf run' order' results')
    (hperm : results.Perm results') :
    OutcomesAgree (EvaluationService.evaluate T digest call contextOf run order)
      (EvaluationService.evaluate T digest call contextOf run' order') := by
  have hscores := hperm.filterMap id
  rw [EvaluationService.evaluate, EvaluationService.evaluate, h.evaluate, h'.evaluate]
  by_cases hnum : min call.numEvals maxNumEvals < 1
  · rw [if_pos hnum, if_pos hnum]
    rfl
  · rw [if_neg hnum, if_neg hnum]
    cases ha : aggregate T call.code call.output (results.filterMap id) with
    | error e =>
        obtain ⟨hnil, he⟩ := aggregate_error ha
        rw [hnil] at hscores
        rw [hscores.nil_eq.symm, he]
        rfl
    | ok a =>
        have hne := aggregate_scores ha
        cases hb : aggregate T call.code call.output (results'.filterMap id) with
        | error e =>
            rw [(aggregate_error hb).1] at hscores
            exact hne.2 hscores.eq_nil
        | ok b =>
            exact recordResult_agree digest call (aggregate_agree hscores ha hb)
              (hne.1 ▸ hne.2)

end Timing

section Sample

/-- Two answers that agree on the overall score only. -/
def strictAnswer : RawScore := ⟨some 2, some 2, some 2, some 2, some 5, some "tests".toList⟩
def kindAnswer : RawScore := ⟨some 9, some 9, some 9, some 9, some 5, some "names".toList⟩

def twoEvals : EvaluateCall where
  task := "sort".toList
  code := "code".toList
  output := none
  numEvals := 2
  patternKey := some "patterns/a".toList

def firstEval : Fin (poolSize twoEvals.numEvals) := ⟨0, by decide⟩
def secondEval : Fin (poolSize twoEvals.numEvals) := ⟨1, by decide⟩

def oneByOne : List (EvalTurn (poolSize twoEvals.numEvals)) :=
  [.enter firstEval, .outcome firstEval (some strictAnswer), .enter secondEval,
    .outcome secondEval (some kindAnswer)]

def twoResults : List (Option EvalScore) :=
  [some (parseScore strictAnswer), some (parseScore kindAnswer)]

theorem oneByOne_completed :
    Completed sharedContext oneByOne [firstEval, secondEval] twoResults ∧
      Completed sharedContext oneByOne [secondEval, firstEval] twoResults.reverse :=
  ⟨⟨List.Perm.refl _, rfl⟩, ⟨List.Perm.swap _ _ _, rfl⟩⟩

theorem evaluation_agrees_two :
    OutcomesAgree
      (EvaluationService.evaluate asciiText id twoEvals sharedContext oneByOne
        [firstEval, secondEval])
      (EvaluationService.evaluate asciiText id twoEvals sharedContext oneByOne
        [secondEval, firstEval]) :=
  evaluation_agrees id twoEvals sharedContext oneByOne oneByOne _ _ _ _ oneByOne_completed.1
    oneByOne_completed.2 (List.reverse_perm _).symm

/-- The call returns, saves and records something else when the second evaluation completes
first. -/
theorem order_changes_record :
    Completed sharedContext oneByOne [firstEval, secondEval] twoResults ∧
      Completed sharedContext oneByOne [secondEval, firstEval] twoResults.reverse ∧
      ∃ a b,
        EvaluationService.evaluate asciiText id twoEvals sharedContext oneByOne
          [firstEval, secondEval] = .ok a ∧
        EvaluationService.evaluate asciiText id twoEvals sharedContext oneByOne
          [secondEval, firstEval] = .ok b ∧
        a.result ≠ b.result ∧ a.saved.dimensions ≠ b.saved.dimensions ∧
        a.saved.feedback ≠ b.saved.feedback ∧ a.recorded ≠ b.recorded := by
  refine ⟨oneByOne_completed.1, oneByOne_completed.2, _, _, rfl, rfl, ?_, by decide, by decide,
    by decide⟩
  intro heq
  have hfeedback := congrArg EvalResult.feedback heq
  revert hfeedback
  decide

end Sample
end Engramia.Evaluation
