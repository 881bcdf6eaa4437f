import Engramia.Evaluation.MultiEval
import Engramia.Llm.Extraction

/-!
`PromptEvolver`. A prompt is improved by the answer of a provider, and with evaluations the code
that either prompt leads to decides whether the candidate is accepted. An answer that is no
object raises where its fields are read. When an evaluation fails the candidate is marked as
rejected and stays in the result, unless the error is not among those that are caught, as that
of an SDK is not.

Every call of the provider is answered or raises, and the evaluations run in any schedule. The
difference of two floats is any function. An improved prompt that is no text is handed to the
provider as it is, and the call for its code is one of those.
-/
namespace Engramia.Evolution
open Engramia.Evaluation Engramia.Library Engramia.Library.JsonText Engramia.Llm Engramia.Patterns
open Engramia.Storage

/-- What a call of the provider raises: a `ValueError`, an error of the runtime or of the
operating system, or any other, such as one of an SDK. -/
inductive LlmFailure where
  | value
  | runtime
  | other
deriving DecidableEq

abbrev Reply : Type := Except LlmFailure Text

/-- Why a result is accepted or not, with what its text is made of. -/
inductive Reason where
  | noIssues
  | llmError
  | candidateGenerated
  | evalError
  | accepted (candidate current : ℚ)
  | rejected (candidate current : ℚ)

structure EvolutionResult where
  improvedPrompt : Value
  changes : Value
  issuesAddressed : List Text
  accepted : Bool
  reason : Reason
  currentScore : Option ℚ
  candidateScore : Option ℚ

/-- A call raises what the provider raised, or an `AttributeError` of its own. -/
inductive EvolveError where
  | provider (failure : LlmFailure)
  | attribute

/-- The result that leaves the prompt as it is. -/
def unchanged (currentPrompt : CodePoints) (issues : List Text) (reason : Reason) :
    EvolutionResult where
  improvedPrompt := .str currentPrompt
  changes := .list []
  issuesAddressed := issues
  accepted := false
  reason := reason
  currentScore := none
  candidateScore := none

/-- `evolve`, for the issues of the feedback store. -/
def evolve (L : Limits) (issues : List Text) (currentPrompt : CodePoints) (reply : Reply) :
    Except EvolveError EvolutionResult :=
  if issues = [] then .ok (unchanged currentPrompt [] .noIssues)
  else
    match reply with
    | .error .other => .error (.provider .other)
    | .error _ => .ok (unchanged currentPrompt issues .llmError)
    | .ok answer =>
        match extractJsonFromLlm L answer with
        | .error _ => .ok (unchanged currentPrompt issues .llmError)
        | .ok (.dict entries) =>
            .ok
              { improvedPrompt :=
                  (entries.lookup (codePoints "improved_prompt")).getD (.str currentPrompt)
                changes := (entries.lookup (codePoints "changes")).getD (.list [])
                issuesAddressed := issues
                accepted := true
                reason := .candidateGenerated
                currentScore := none
                candidateScore := none }
        | .ok _ => .error .attribute

section Evaluations

def tolerance : ℚ := 2 / 10

/-- The code that a prompt leads to, and the schedule of its evaluations. -/
structure Trial (n : ℕ) where
  code : Reply
  run : List (EvalTurn n)
  order : List (Fin n)

inductive TrialError where
  | provider (failure : LlmFailure)
  | evaluation (error : EvalError)

variable {n : ℕ} (T : TextMethods) (testOutput : Option Text)

/-- The median score of a trial. -/
def Trial.score (trial : Trial n) : Except TrialError ℚ :=
  match trial.code with
  | .error e => .error (.provider e)
  | .ok code =>
      match MultiEvaluator.evaluate T sharedContext code testOutput trial.run trial.order with
      | .error e => .error (.evaluation e)
      | .ok result => .ok result.medianScore

/-- The errors of a trial that are caught, which are those of the runtime. -/
def TrialError.uncaught : TrialError → Option LlmFailure
  | .provider .runtime | .evaluation _ => none
  | .provider e => some e

/-- Both variants are tried, and the candidate is accepted or taken back. -/
def compareTrials (sub : ℚ → ℚ → ℚ) (currentPrompt : CodePoints) (result : EvolutionResult)
    (current candidate : Trial n) : Except EvolveError EvolutionResult :=
  match current.score T testOutput with
  | .error e =>
      match e.uncaught with
      | some failure => .error (.provider failure)
      | none => .ok { result with accepted := false, reason := .evalError }
  | .ok currentScore =>
      match candidate.score T testOutput with
      | .error e =>
          match e.uncaught with
          | some failure => .error (.provider failure)
          | none => .ok { result with accepted := false, reason := .evalError }
      | .ok candidateScore =>
          let accepted := decide (sub currentScore tolerance ≤ candidateScore)
          .ok
            { result with
              accepted := accepted
              currentScore := some currentScore
              candidateScore := some candidateScore
              reason :=
                if accepted then .accepted candidateScore currentScore
                else .rejected candidateScore currentScore
              improvedPrompt :=
                if accepted then result.improvedPrompt else .str currentPrompt }

/-- `evolve_with_eval` -/
def evolveWithEval (sub : ℚ → ℚ → ℚ) (L : Limits) (issues : List Text)
    (currentPrompt : CodePoints) (reply : Reply) (current candidate : Trial n) :
    Except EvolveError EvolutionResult :=
  match evolve L issues currentPrompt reply with
  | .error e => .error e
  | .ok result =>
      if !result.accepted || result.improvedPrompt.str? = some currentPrompt then .ok result
      else compareTrials T testOutput sub currentPrompt result current candidate

end Evaluations

section Laws
variable {n : ℕ} (T : TextMethods) (testOutput : Option Text) (sub : ℚ → ℚ → ℚ) (L : Limits)
  (issues : List Text) (currentPrompt : CodePoints) (reply : Reply) (current candidate : Trial n)

/-- Nothing is raised, and a result that is not accepted has the prompt as it was. -/
structure Lawful (outcome : Except EvolveError EvolutionResult) : Prop where
  raises : ∀ e, outcome ≠ .error e
  rejected : ∀ r, outcome = .ok r → r.accepted = false → r.improvedPrompt = .str currentPrompt

/-- A changed prompt is accepted only with both scores, and with the candidate's no lower than
the tolerance allows. -/
def AcceptedByScores (outcome : Except EvolveError EvolutionResult) : Prop :=
  ∀ r, outcome = .ok r → r.accepted = true → r.improvedPrompt ≠ .str currentPrompt →
    ∃ c d, current.score T testOutput = .ok c ∧ candidate.score T testOutput = .ok d ∧
      r.currentScore = some c ∧ r.candidateScore = some d ∧ sub c tolerance ≤ d

/-- The answer holds another prompt than the current one. -/
def Candidate (improved : Value) : Prop :=
  issues ≠ [] ∧ improved ≠ .str currentPrompt ∧
    ∃ answer entries, reply = .ok answer ∧ extractJsonFromLlm L answer = .ok (.dict entries) ∧
      entries.lookup (codePoints "improved_prompt") = some improved

/-- An error ends the trials. -/
def TrialFails : Prop :=
  (∃ e, current.score T testOutput = .error e) ∨
    ∃ c e, current.score T testOutput = .ok c ∧ candidate.score T testOutput = .error e

/-- The provider answers or raises what is caught, what the answer holds is an object, and no
trial fails of a prompt that is another one. -/
structure Evolvable : Prop where
  caught : issues ≠ [] → reply ≠ .error .other
  object : issues ≠ [] → ∀ answer v, reply = .ok answer → extractJsonFromLlm L answer = .ok v →
    v.IsDict
  tried : ∀ improved, Candidate L issues currentPrompt reply improved →
    ¬ TrialFails T testOutput current candidate

/-- What `evolve` comes to. -/
inductive Outcome : Except EvolveError EvolutionResult → Prop where
  | provider (hissues : issues ≠ []) (hreply : reply = .error .other) :
      Outcome (.error (.provider .other))
  | notObject {answer : Text} {v : Value} (hissues : issues ≠ []) (hreply : reply = .ok answer)
      (hanswer : extractJsonFromLlm L answer = .ok v) (hv : ¬ v.IsDict) :
      Outcome (.error .attribute)
  | unchanged (addressed : List Text) (reason : Reason) :
      Outcome (.ok (unchanged currentPrompt addressed reason))
  | same {r : EvolutionResult} (haccepted : r.accepted = true)
      (hprompt : r.improvedPrompt = .str currentPrompt) : Outcome (.ok r)
  | candidate {r : EvolutionResult} (haccepted : r.accepted = true)
      (hcandidate : Candidate L issues currentPrompt reply r.improvedPrompt) : Outcome (.ok r)

end Laws

section Outcomes
variable {n : ℕ} {T : TextMethods} {testOutput : Option Text} {sub : ℚ → ℚ → ℚ} {L : Limits}
  {issues : List Text} {currentPrompt : CodePoints} {reply : Reply} {current candidate : Trial n}
  {result : EvolutionResult}

theorem str?_eq_some_iff {v : Value} {points : CodePoints} :
    v.str? = some points ↔ v = .str points := by
  cases v with
  | str points' => simp [Value.str?]
  | _ => simp [Value.str?]

theorem evolve_outcome (L : Limits) (issues : List Text) (currentPrompt : CodePoints)
    (reply : Reply) :
    Outcome L issues currentPrompt reply (evolve L issues currentPrompt reply) := by
  unfold evolve
  by_cases hissues : issues = []
  · rw [if_pos hissues]
    exact .unchanged [] .noIssues
  · rw [if_neg hissues]
    cases reply with
    | error e =>
        cases e with
        | other => exact .provider hissues rfl
        | value | runtime => exact .unchanged issues .llmError
    | ok answer =>
        cases hanswer : extractJsonFromLlm L answer with
        | error e => simpa only [hanswer] using Outcome.unchanged issues .llmError
        | ok v =>
            cases v with
            | dict entries =>
                simp only [hanswer]
                cases himproved : entries.lookup (codePoints "improved_prompt") with
                | none => exact .same rfl rfl
                | some improved =>
                    by_cases hsame : improved = .str currentPrompt
                    · exact .same rfl hsame
                    · exact .candidate rfl
                        ⟨hissues, hsame, answer, entries, rfl, hanswer, himproved⟩
            | _ =>
                simp only [hanswer]
                exact .notObject hissues rfl hanswer id

theorem evolve_notObject {answer : Text} {v : Value} (hissues : issues ≠ [])
    (hanswer : extractJsonFromLlm L answer = .ok v) (hv : ¬ v.IsDict) :
    evolve L issues currentPrompt (.ok answer) = .error .attribute := by
  rw [evolve, if_neg hissues]
  simp only [hanswer]
  cases v with
  | dict entries => exact absurd trivial hv
  | _ => rfl

theorem evolve_candidate {improved : Value} (h : Candidate L issues currentPrompt reply improved) :
    ∃ r, evolve L issues currentPrompt reply = .ok r ∧ r.accepted = true ∧
      r.improvedPrompt = improved := by
  obtain ⟨hissues, _, answer, entries, hreply, hanswer, himproved⟩ := h
  have hevolve : evolve L issues currentPrompt reply = .ok
      { improvedPrompt := improved
        changes := (entries.lookup (codePoints "changes")).getD (.list [])
        issuesAddressed := issues
        accepted := true
        reason := .candidateGenerated
        currentScore := none
        candidateScore := none } := by
    rw [hreply, evolve, if_neg hissues]
    simp only [hanswer, himproved, Option.getD_some]
  exact ⟨_, hevolve, rfl, rfl⟩

theorem not_lawful_error (e : EvolveError) : ¬ Lawful currentPrompt (.error e) :=
  fun h => h.raises e rfl

theorem evolve_other (hissues : issues ≠ []) :
    evolve L issues currentPrompt (.error .other) = .error (.provider .other) := by
  rw [evolve, if_neg hissues]

theorem compareTrials_fails (h : TrialFails T testOutput current candidate) :
    (∃ e, compareTrials T testOutput sub currentPrompt result current candidate = .error e) ∨
      compareTrials T testOutput sub currentPrompt result current candidate =
        .ok { result with accepted := false, reason := .evalError } := by
  unfold compareTrials
  cases h with
  | inl hcurrent =>
      obtain ⟨e, he⟩ := hcurrent
      cases hcaught : e.uncaught with
      | some failure => exact .inl ⟨.provider failure, by simp only [he, hcaught]⟩
      | none => exact .inr (by simp only [he, hcaught])
  | inr hcandidate =>
      obtain ⟨c, e, hc, he⟩ := hcandidate
      cases hcaught : e.uncaught with
      | some failure => exact .inl ⟨.provider failure, by simp only [hc, he, hcaught]⟩
      | none => exact .inr (by simp only [hc, he, hcaught])

theorem compareTrials_scored (h : ¬ TrialFails T testOutput current candidate) :
    ∃ c d, current.score T testOutput = .ok c ∧ candidate.score T testOutput = .ok d := by
  cases hcurrent : current.score T testOutput with
  | error e => exact absurd (.inl ⟨e, hcurrent⟩) h
  | ok c =>
      cases hcandidate : candidate.score T testOutput with
      | error e => exact absurd (.inr ⟨c, e, hcurrent, hcandidate⟩) h
      | ok d => exact ⟨c, d, rfl, rfl⟩

theorem compareTrials_lawful (h : ¬ TrialFails T testOutput current candidate) :
    Lawful currentPrompt
      (compareTrials T testOutput sub currentPrompt result current candidate) := by
  obtain ⟨c, d, hc, hd⟩ := compareTrials_scored h
  unfold compareTrials
  simp only [hc, hd]
  constructor
  · intro e he
    cases he
  · intro r hr hrejected
    cases hr
    exact if_neg (by simpa using hrejected)

theorem compareTrials_accepted (h : ¬ TrialFails T testOutput current candidate) :
    AcceptedByScores T testOutput sub currentPrompt current candidate
      (compareTrials T testOutput sub currentPrompt result current candidate) := by
  obtain ⟨c, d, hc, hd⟩ := compareTrials_scored h
  unfold compareTrials
  simp only [hc, hd]
  intro r hr haccepted _
  cases hr
  exact ⟨c, d, hc, hd, rfl, rfl, of_decide_eq_true haccepted⟩

theorem evolveWithEval_candidate (h : evolve L issues currentPrompt reply = .ok result)
    (haccepted : result.accepted = true) (hprompt : result.improvedPrompt ≠ .str currentPrompt) :
    evolveWithEval T testOutput sub L issues currentPrompt reply current candidate =
      compareTrials T testOutput sub currentPrompt result current candidate := by
  rw [evolveWithEval, h]
  simp [haccepted, str?_eq_some_iff, hprompt]

theorem evolveWithEval_same (h : evolve L issues currentPrompt reply = .ok result)
    (hprompt : result.improvedPrompt = .str currentPrompt) :
    evolveWithEval T testOutput sub L issues currentPrompt reply current candidate =
      .ok result := by
  rw [evolveWithEval, h]
  simp [str?_eq_some_iff, hprompt]

theorem acceptedByScores_same (hprompt : result.improvedPrompt = .str currentPrompt) :
    AcceptedByScores T testOutput sub currentPrompt current candidate (.ok result) := by
  intro r hr _ hne
  cases hr
  exact absurd hprompt hne

theorem lawful_same (hprompt : result.improvedPrompt = .str currentPrompt) :
    Lawful currentPrompt (.ok result) where
  raises e he := nomatch he
  rejected r hr _ := by
    cases hr
    exact hprompt

theorem lawful_accepted (haccepted : result.accepted = true) :
    Lawful currentPrompt (.ok result) where
  raises e he := nomatch he
  rejected r hr hnot := by
    cases hr
    rw [haccepted] at hnot
    cases hnot

/-- Evolution keeps its law exactly for the answers and trials that are evolvable. -/
theorem evolution_lawful_iff (T : TextMethods) (testOutput : Option Text) (sub : ℚ → ℚ → ℚ)
    (L : Limits) (issues : List Text) (currentPrompt : CodePoints) (reply : Reply)
    (current candidate : Trial n) :
    (Lawful currentPrompt (evolve L issues currentPrompt reply) ∧
      Lawful currentPrompt
        (evolveWithEval T testOutput sub L issues currentPrompt reply current candidate) ∧
      AcceptedByScores T testOutput sub currentPrompt current candidate
        (evolveWithEval T testOutput sub L issues currentPrompt reply current candidate)) ↔
      Evolvable T testOutput L issues currentPrompt reply current candidate := by
  constructor
  · intro h
    refine ⟨?_, ?_, ?_⟩
    · intro hissues hreply
      rw [hreply, evolve_other hissues] at h
      exact not_lawful_error _ h.1
    · intro hissues answer v hreply hanswer
      by_contra hv
      rw [hreply, evolve_notObject hissues hanswer hv] at h
      exact not_lawful_error _ h.1
    · intro improved himproved hfails
      obtain ⟨r, hr, haccepted, hprompt⟩ := evolve_candidate himproved
      have hne : r.improvedPrompt ≠ .str currentPrompt := hprompt ▸ himproved.2.1
      rw [evolveWithEval_candidate hr haccepted hne] at h
      cases compareTrials_fails hfails with
      | inl herror =>
          obtain ⟨e, he⟩ := herror
          exact h.2.1.raises e he
      | inr hrejected =>
          have hkept := h.2.1.rejected { r with accepted := false, reason := .evalError }
          exact hne (hkept hrejected rfl)
  · intro h
    have houtcome := evolve_outcome L issues currentPrompt reply
    generalize hevolve : evolve L issues currentPrompt reply = outcome at houtcome
    cases houtcome with
    | provider hissues hreply => exact absurd hreply (h.caught hissues)
    | notObject hissues hreply hanswer hv =>
        exact absurd (h.object hissues _ _ hreply hanswer) hv
    | unchanged addressed reason =>
        rw [evolveWithEval_same hevolve rfl]
        exact ⟨lawful_same rfl, lawful_same rfl, acceptedByScores_same rfl⟩
    | same haccepted hprompt =>
        rw [evolveWithEval_same hevolve hprompt]
        exact ⟨lawful_same hprompt, lawful_same hprompt, acceptedByScores_same hprompt⟩
    | candidate haccepted hcandidate =>
        have htried := h.tried _ hcandidate
        rw [evolveWithEval_candidate hevolve haccepted hcandidate.2.1]
        exact ⟨lawful_accepted haccepted, compareTrials_lawful htried,
          compareTrials_accepted htried⟩

/-- An object with the improved prompt `b`. -/
def improvedAnswer : Text :=
  ['{', '"', 'i', 'm', 'p', 'r', 'o', 'v', 'e', 'd', '_', 'p', 'r', 'o', 'm', 'p', 't', '"',
    ':', '"', 'b', '"', '}']

/-- The call for the code of a prompt fails at the provider. -/
def failedTrial : Trial 1 where
  code := .error .runtime
  run := []
  order := []

/-- When the first trial fails, the rejected result has the candidate. -/
theorem failed_trial_keeps_candidate :
    evolveWithEval ⟨id, isspace⟩ none (· - ·) defaultLimits ["slow".toList]
        (codePoints "a") (.ok improvedAnswer) failedTrial failedTrial =
      .ok
        { improvedPrompt := .str (codePoints "b")
          changes := .list []
          issuesAddressed := ["slow".toList]
          accepted := false
          reason := .evalError
          currentScore := none
          candidateScore := none } ∧
      ¬ Lawful (codePoints "a")
        (evolveWithEval ⟨id, isspace⟩ none (· - ·) defaultLimits ["slow".toList]
          (codePoints "a") (.ok improvedAnswer) failedTrial failedTrial) := by
  have hanswer : extractJsonFromLlm defaultLimits improvedAnswer =
      .ok (.dict [(codePoints "improved_prompt", .str (codePoints "b"))]) := by rfl
  have hevolve : evolve defaultLimits ["slow".toList] (codePoints "a") (.ok improvedAnswer) = .ok
      { improvedPrompt := .str (codePoints "b")
        changes := .list []
        issuesAddressed := ["slow".toList]
        accepted := true
        reason := .candidateGenerated
        currentScore := none
        candidateScore := none } := by
    rw [evolve, if_neg (List.cons_ne_nil _ _)]
    simp only [hanswer]
    rfl
  have hne : Value.str (codePoints "b") ≠ .str (codePoints "a") := by
    intro h
    injection h with h
    exact absurd h (by decide)
  rw [evolveWithEval_candidate hevolve rfl hne]
  refine ⟨rfl, ?_⟩
  intro h
  exact hne (h.rejected _ rfl rfl)

end Outcomes

end Engramia.Evolution
