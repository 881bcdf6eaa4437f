import Engramia.Library.ReadModifyWrite
import Engramia.Patterns.Similarity
import Mathlib.Data.List.DropRight

/-!
The four stores that keep a document for each scope or pattern and change it by
loading it, editing it and saving it back: run metrics, evaluation results, the
reuse of patterns, recurring feedback.

A call carries what it reads outside the storage: the clock and the scope of its
request. Floats are a type with the operations the code uses, and the values the
stores only pass on are a type of their own.
-/
namespace Engramia.Core
open Engramia.Library Engramia.Storage
open Engramia.Patterns (TextMethods jaccard)

structure Floats (F : Type) where
  add : F → F → F
  min : F → F → F
  lit : ℚ → F

/-- The string methods and the character class `\w` of the feedback store. -/
structure FeedbackText extends TextMethods where
  isWord : Char → Bool

/-- `xs[-n:]` -/
def latest {α : Type} (n : Nat) (xs : List α) : List α :=
  xs.drop (xs.length - n)

def maxHistory : Nat := 100
def maxEvals : Nat := 200
def maxKeep : Nat := 50
def maxFeedbackLen : Nat := 5000

/-- Jaccard threshold for grouping similar feedback. -/
def clusterThreshold : ℚ := 4 / 10

structure RunEntry (F : Type) where
  timestamp : F
  success : Bool
  evalScore : Option F

structure MetricsDoc (F : Type) where
  runs : Nat
  success : Nat
  failures : Nat
  pipelineReuse : Nat
  runHistory : List (RunEntry F)

structure EvalRecord (F V : Type) where
  agentName : Text
  task : Text
  scores : V
  timestamp : F
deriving DecidableEq

/-- A stored pattern: the fields of `Pattern`, and the document's other keys. -/
structure PatternDoc (F V : Type) where
  task : Text
  design : V
  successScore : F
  reuseCount : Nat
  timestamp : F
  others : List (Text × V)

structure FeedbackPattern (F : Type) where
  pattern : Text
  count : Nat
  score : F
  lastSeen : Text
  lastDecayed : Text

section Edits
variable {F V : Type} (fl : Floats F) (T : FeedbackText)

/-- `MetricsStore.record_run`, from what it loads to what it saves. -/
def recordRun (success pipelineReuse : Bool) (evalScore : Option F) (now : F)
    (loaded : Option (MetricsDoc F)) : MetricsDoc F :=
  let data := loaded.getD ⟨0, 0, 0, 0, []⟩
  { runs := data.runs + 1
    success := if success then data.success + 1 else data.success
    failures := if success then data.failures else data.failures + 1
    pipelineReuse := if pipelineReuse then data.pipelineReuse + 1 else data.pipelineReuse
    runHistory := latest maxHistory (data.runHistory ++ [⟨now, success, evalScore⟩]) }

/-- `EvalStore.save` -/
def saveEval (agentName task : Text) (scores : V) (now : F)
    (loaded : Option (List (EvalRecord F V))) : List (EvalRecord F V) :=
  latest maxEvals (loaded.getD [] ++ [⟨agentName, task, scores, now⟩])

/-- `SuccessPatternStore.mark_reused`. Of the other keys only the internal ones are kept. -/
def markReused (data : PatternDoc F V) : PatternDoc F V :=
  { data with
    successScore := fl.min (fl.lit 10) (fl.add data.successScore (fl.lit (1 / 10)))
    reuseCount := data.reuseCount + 1
    others := data.others.filter fun other => other.1.head? = some '_' }

/-- `str.strip` -/
def strip (text : Text) : Text :=
  (text.dropWhile T.isspace).rdropWhile T.isspace

/-- `re.sub(r"\s+", " ", text)`, with whether a blank stands just before the text. -/
def collapse (T : FeedbackText) : Bool → Text → Text
  | _, [] => []
  | afterBlank, ch :: text =>
      if T.isspace ch then
        if afterBlank then collapse T true text else ' ' :: collapse T true text
      else ch :: collapse T false text

/-- `_normalize` -/
def normalize (text : Text) : Text :=
  strip T (collapse T false ((strip T (T.lower text)).map fun ch =>
    if T.isWord ch || T.isspace ch then ch else ' '))

/-- The first cluster the feedback belongs to counts it. -/
def countInCluster (norm nowIso : Text) :
    List (FeedbackPattern F) → Option (List (FeedbackPattern F))
  | [] => none
  | p :: patterns =>
      if clusterThreshold < jaccard T.toTextMethods (normalize T p.pattern) norm then
        some ({ p with
          count := p.count + 1
          score := fl.min (fl.add p.score (fl.lit (1 / 10))) (fl.lit 1)
          lastSeen := nowIso } :: patterns)
      else (countInCluster norm nowIso patterns).map (p :: ·)

/-- `EvalFeedbackStore.record`; `none` when it returns or raises without saving. -/
def recordFeedback (feedbackText nowIso : Text) (loaded : Option (List (FeedbackPattern F))) :
    Option (List (FeedbackPattern F)) :=
  let norm := normalize T feedbackText
  let patterns := loaded.getD []
  if maxFeedbackLen < feedbackText.length then none
  else if norm = [] then none
  else
    match countInCluster fl T norm nowIso patterns with
    | some patterns => some patterns
    | none =>
        some (latest maxKeep
          (patterns ++ [⟨strip T feedbackText, 1, fl.lit (1 / 2), nowIso, nowIso⟩]))

end Edits

inductive Shape where
  | metrics
  | evals
  | pattern
  | feedback
deriving DecidableEq

/-- A document lies under the scope of the request, at a key of one of the stores. -/
structure DocKey where
  scope : Scope
  shape : Shape
  key : Text
deriving DecidableEq

def Content (F V : Type) : Shape → Type
  | .metrics => MetricsDoc F
  | .evals => List (EvalRecord F V)
  | .pattern => PatternDoc F V
  | .feedback => List (FeedbackPattern F)

abbrev Stored (F V : Type) (k : DocKey) : Type :=
  Option (Content F V k.shape)

/-- `_scoped_key` of each store: the store's prefix, the scope, and a last segment. -/
def scopedKey (keyPrefix last : Text) (scope : Scope) : Text :=
  keyPrefix ++ '/' :: scope.tenantId ++ '/' :: scope.projectId ++ '/' :: last

def metricsKey (scope : Scope) : DocKey :=
  ⟨scope, .metrics, scopedKey "metrics".toList "_global".toList scope⟩

def feedbackKey (scope : Scope) : DocKey :=
  ⟨scope, .feedback, scopedKey "feedback".toList "_list".toList scope⟩

/-- `_resolve_scope` of the evaluation store, for one of the two identifiers. -/
def resolveId (given current fallback : Text) : Text :=
  if given ≠ [] then given else if current ≠ [] then current else fallback

def resolveScope (given current fallback : Scope) : Scope :=
  ⟨resolveId given.tenantId current.tenantId fallback.tenantId,
    resolveId given.projectId current.projectId fallback.projectId⟩

def evalsKey (scope given fallback : Scope) : DocKey :=
  ⟨scope, .evals, scopedKey "evals".toList "_list".toList (resolveScope given scope fallback)⟩

/-- A call to one of the stores. `given` and `fallback` are the scope an evaluation is
saved with and the one its store was made with. -/
inductive StoreCall (F V : Type) where
  | recordRun (scope : Scope) (success pipelineReuse : Bool) (evalScore : Option F) (now : F)
  | saveEval (scope given fallback : Scope) (agentName task : Text) (scores : V) (now : F)
  | markReused (scope : Scope) (patternKey : Text)
  | recordFeedback (scope : Scope) (feedbackText nowIso : Text)

section Calls
variable {F V ι : Type} (fl : Floats F) (T : FeedbackText)

def StoreCall.toEdit : StoreCall F V → Edit DocKey (Stored F V)
  | .recordRun scope success pipelineReuse evalScore now =>
      { key := metricsKey scope
        edit := fun loaded =>
          some (some (Core.recordRun success pipelineReuse evalScore now loaded)) }
  | .saveEval scope given fallback agentName task scores now =>
      { key := evalsKey scope given fallback
        edit := fun loaded => some (some (Core.saveEval agentName task scores now loaded)) }
  | .markReused scope patternKey =>
      { key := ⟨scope, .pattern, patternKey⟩
        edit := fun loaded => loaded.map fun data => some (Core.markReused fl data) }
  | .recordFeedback scope feedbackText nowIso =>
      { key := feedbackKey scope
        edit := fun loaded =>
          (Core.recordFeedback fl T feedbackText nowIso loaded).map some }

/-- The calls of the stores' clients. -/
def edits (calls : ι → StoreCall F V) (i : ι) : Edit DocKey (Stored F V) :=
  (calls i).toEdit fl T

/-- The runs of a scope, or the reuses of a pattern. -/
def countOf : (k : DocKey) → Stored F V k → Nat
  | ⟨_, .metrics, _⟩, doc => doc.elim 0 MetricsDoc.runs
  | ⟨_, .pattern, _⟩, doc => doc.elim 0 PatternDoc.reuseCount
  | ⟨_, .evals, _⟩, _ => 0
  | ⟨_, .feedback, _⟩, _ => 0

/-- The documents that count their calls: the metrics, and the patterns that exist. -/
def IsCounter (docs : (k : DocKey) → Stored F V k) (k : DocKey) : Prop :=
  k.shape = .metrics ∨ k.shape = .pattern ∧ (docs k).isSome

/-- A document a call is counted in. -/
def CountsOn (k : DocKey) (doc : Stored F V k) : Prop :=
  k.shape = .pattern → doc.isSome

variable {fl T} {docs : (k : DocKey) → Stored F V k}

theorem countsOn_docs (k : DocKey) (hk : IsCounter docs k) : CountsOn k (docs k) := by
  intro hshape
  cases hk with
  | inl hmetrics =>
      rw [hmetrics] at hshape
      cases hshape
  | inr hpattern => exact hpattern.2

theorem StoreCall.counts (c : StoreCall F V) (value : Stored F V (c.toEdit fl T).key)
    (hk : IsCounter docs (c.toEdit fl T).key) (hvalue : CountsOn (c.toEdit fl T).key value) :
    ∃ next, (c.toEdit fl T).edit value = some next ∧ CountsOn (c.toEdit fl T).key next ∧
      countOf (c.toEdit fl T).key next = countOf (c.toEdit fl T).key value + 1 := by
  cases c with
  | recordRun scope success pipelineReuse evalScore now =>
      refine ⟨_, rfl, ?_, ?_⟩
      · intro hshape
        cases hshape
      · cases value with
        | none => rfl
        | some data => rfl
  | markReused scope patternKey =>
      obtain ⟨data, hdata⟩ := Option.isSome_iff_exists.mp (hvalue rfl)
      subst hdata
      exact ⟨some (Core.markReused fl data), rfl, fun _ => rfl, rfl⟩
  | saveEval scope given fallback agentName task scores now =>
      cases hk with
      | inl hshape => cases hshape
      | inr hshape => cases hshape.1
  | recordFeedback scope feedbackText nowIso =>
      cases hk with
      | inl hshape => cases hshape
      | inr hshape => cases hshape.1

theorem counts_edits (calls : ι → StoreCall F V) :
    Counts (edits fl T calls) (IsCounter docs) CountsOn countOf :=
  fun i value hk hvalue => (calls i).counts value hk hvalue

end Calls

/-- Calls that find their document as they loaded it leave what some order of them leaves
one after another. A run that ends in what some order leaves has recorded every run and
every reuse on the document it had loaded. -/
theorem stores_serial {F V ι : Type} [DecidableEq ι] (fl : Floats F) (T : FeedbackText)
    (calls : ι → StoreCall F V) (docs : (k : DocKey) → Stored F V k)
    (run : List (EditStep ι)) :
    (AllSteps (editStep (edits fl T calls)) (Undisturbed (edits fl T calls))
        (initialCells _ docs) run →
      Always (editStep (edits fl T calls)) (Serializable (edits fl T calls) docs)
        (initialCells _ docs) run) ∧
    (Serializable (edits fl T calls) docs
        (exec (editStep (edits fl T calls)) (initialCells _ docs) run) →
      AllSteps (editStep (edits fl T calls))
        (UndisturbedOn (edits fl T calls) (IsCounter docs)) (initialCells _ docs) run) :=
  ⟨serializable_of_undisturbed,
    undisturbedOn_of_serializable (counts_edits calls) fun k hk => countsOn_docs k hk⟩

section Sample

/-- Two runs of one scope, both successful. -/
def twoRuns (_ : Bool) : StoreCall ℚ Unit :=
  .recordRun defaultScope true false none 0

def rationals : Floats ℚ := ⟨(· + ·), min, id⟩

def asciiFeedback : FeedbackText := ⟨Patterns.asciiText, Char.isAlphanum⟩

/-- Both load the metrics before either saves them. -/
def overlapping : List (EditStep Bool) :=
  [.load true, .load false, .save true, .save false]

/-- One of the two runs is not counted. -/
theorem run_lost : ¬ Serializable (edits rationals asciiFeedback twoRuns) (fun _ => none)
    (exec (editStep (edits rationals asciiFeedback twoRuns)) (initialCells _ fun _ => none)
      overlapping) := by
  intro h
  have hfree := undisturbedOn_of_serializable (counts_edits twoRuns)
    (fun k hk => countsOn_docs k hk) h
  exact Nat.zero_ne_one (hfree.2.2.2.1 (.inl rfl))

end Sample

end Engramia.Core
