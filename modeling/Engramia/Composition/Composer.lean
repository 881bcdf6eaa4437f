import Engramia.Composition.Contracts
import Engramia.Llm.Extraction
import Engramia.Recall.Paths

/-!
`PipelineComposer.compose`. The answer of a provider is decomposed into stages, each stage is
looked up and becomes a stage of the pipeline, and the contracts of the stages are checked. An
answer that holds no object, or no stages, falls back to a single stage. What it holds
otherwise is read without a check, so that a value of another type raises.

Strings are code points. The provider has answered, and what a lookup comes to is a function of
the value it is asked for.
-/
namespace Engramia.Composition
open Engramia.Library Engramia.Library.JsonText Engramia.Llm Engramia.Storage
open Engramia.Recall (Match RecallError ReuseTier)

section InitialInputs

/-- The characters of words, letters that are equal but for their case, and `str.lower`. -/
structure InputText where
  isWord : ℕ → Bool
  sameLetter : ℕ → ℕ → Bool
  lower : CodePoints → CodePoints

variable (T : InputText)

/-- The extensions in the order they are tried. -/
def inputExtensions : List CodePoints :=
  ["csv", "json", "txt", "xlsx", "xls", "parquet", "yaml", "toml", "xml", "html"].map codePoints

/-- An extension at the front of the text, before the end of a word. -/
def matchExtension (text : CodePoints) : Option CodePoints :=
  inputExtensions.findSome? fun extension =>
    let found := text.take extension.length
    if found.length = extension.length ∧ (found.zip extension).all (fun x => T.sameLetter x.1 x.2) ∧
        (text.drop extension.length).head?.all (fun c => !T.isWord c) then some found
    else none

/-- The matches of the pattern, with the word before the text. None is in a word that is part of
a match. -/
def inputsFrom : Option CodePoints → CodePoints → List CodePoints
  | _, [] => []
  | word, c :: text =>
      if T.isWord c then inputsFrom (word.map (· ++ [c])) text
      else if c = '.'.toNat ∧ word.any (· ≠ []) then
        match matchExtension T text with
        | some extension => (word.getD [] ++ c :: extension) :: inputsFrom none text
        | none => inputsFrom (some []) text
      else inputsFrom (some []) text

/-- `infer_initial_inputs` -/
def inferInitialInputs (task : CodePoints) : List CodePoints :=
  let found := inputsFrom T (some []) task
  if found ≠ [] then found.eraseDups
  else
    (if codePoints "csv" <:+: T.lower task then [codePoints "sample.csv"] else []) ++
      (if codePoints "json" <:+: T.lower task then [codePoints "sample.json"] else [])

end InitialInputs

structure PipelineStage where
  name : CodePoints
  task : CodePoints
  design : List (Text × Json Text)
  reads : List CodePoints
  writes : List CodePoints
  reuseTier : ReuseTier
  similarity : ℚ
  similarity_bounds : 0 ≤ similarity ∧ similarity ≤ 1

theorem similarity_bounds (matched : Option Match) :
    0 ≤ (matched.map Match.similarity).getD 0 ∧ (matched.map Match.similarity).getD 0 ≤ 1 := by
  cases matched with
  | none => exact ⟨le_refl _, zero_le_one⟩
  | some m => exact m.similarity_bounds

def PipelineStage.toDict (stage : PipelineStage) : StageDict where
  name := some stage.name
  task := none
  reads := some stage.reads
  writes := some stage.writes

structure Pipeline where
  task : CodePoints
  stages : List PipelineStage
  valid : Bool
  contractErrors : List ContractError

inductive ComposeError where
  | attribute
  | key
  | type
  | validation
  | lookUp (error : RecallError)

def maxStages : ℕ := 4

section Stages
variable (lookUp : Value → Except RecallError (List Match))

/-- `d.get(key) or []` -/
def getOrEmpty (key : String) (entries : List (CodePoints × Value)) : Value :=
  match entries.lookup (codePoints key) with
  | some v => if v.truthy then v else .list []
  | none => .list []

/-- A value as a `list[str]`. -/
def stringList : Value → Option (List CodePoints)
  | .list items => items.mapM Value.str?
  | _ => none

/-- `PipelineStage(...)`, with what is matched or without. -/
def pipelineStage (i : ℕ) (task : Value) (entries : List (CodePoints × Value))
    (matched : Option Match) : Except ComposeError PipelineStage :=
  match task.str?, stringList (getOrEmpty "reads" entries),
    stringList (getOrEmpty "writes" entries) with
  | some task, some reads, some writes =>
      .ok
        { name := codePoints "stage_" ++ codePoints (toString i)
          task := task
          design := (matched.map fun m => m.pattern.design).getD []
          reads := reads
          writes := writes
          reuseTier := (matched.map Match.reuseTier).getD .fresh
          similarity := (matched.map Match.similarity).getD 0
          similarity_bounds := similarity_bounds matched }
  | _, _, _ => .error .validation

/-- The stage of a decomposition, as the `i`th of the pipeline. -/
def buildStage (i : ℕ) : Value → Except ComposeError PipelineStage
  | .dict entries =>
      match entries.lookup (codePoints "task") with
      | none => .error .key
      | some task =>
          match lookUp task with
          | .error e => .error (.lookUp e)
          | .ok found => pipelineStage i task entries found.head?
  | _ => .error .type

def buildStages (i : ℕ) : List Value → Except ComposeError (List PipelineStage)
  | [] => .ok []
  | spec :: specs => do
      let stage ← buildStage lookUp i spec
      let stages ← buildStages (i + 1) specs
      .ok (stage :: stages)

end Stages

def fallbackStage (task : CodePoints) : Value :=
  .dict [(codePoints "task", .str task), (codePoints "reads", .list []),
    (codePoints "writes", .list [.str (codePoints "output.json")])]

/-- `_decompose`. Every error of the extraction is caught, the one of the recursion too. -/
def decompose (L : Limits) (task : CodePoints) (answer : Text) : Except ComposeError (List Value) :=
  match extractJsonFromLlm L answer with
  | .error _ => .ok [fallbackStage task]
  | .ok (.dict entries) =>
      match entries.lookup (codePoints "stages") with
      | some (.list (spec :: specs)) => .ok (spec :: specs)
      | _ => .ok [fallbackStage task]
  | .ok _ => .error .attribute

def compose (T : InputText) (L : Limits) (lookUp : Value → Except RecallError (List Match))
    (task : CodePoints) (answer : Text) : Except ComposeError Pipeline := do
  let specs ← decompose L task answer
  let initialInputs := inferInitialInputs T task
  let stages ← buildStages lookUp 0 (specs.take maxStages)
  let contractErrors := validateContracts (stages.map PipelineStage.toDict) (some initialInputs)
  .ok
    { task := task
      stages := stages
      valid := contractErrors.isEmpty
      contractErrors := contractErrors }

section Conditions
variable (L : Limits) (lookUp : Value → Except RecallError (List Match)) (task : CodePoints)
  (answer : Text)

/-- The stages of an answer that holds an object with a list of them. -/
def answeredStages : List Value :=
  match extractJsonFromLlm L answer with
  | .ok (.dict entries) =>
      match entries.lookup (codePoints "stages") with
      | some (.list specs) => specs
      | _ => []
  | _ => []

/-- A pipeline comes back, of a single stage for the task where the answer has no stages. -/
def Composes (T : InputText) : Prop :=
  ∃ pipeline, compose T L lookUp task answer = .ok pipeline ∧
    (answeredStages L answer = [] → ∃ stage, pipeline.stages = [stage] ∧ stage.task = task)

/-- No value, a falsy one, or a list of strings. -/
def FileList (key : String) (entries : List (CodePoints × Value)) : Prop :=
  ∀ v, entries.lookup (codePoints key) = some v → v.truthy →
    ∃ items, v = .list items ∧ ∀ x ∈ items, ∃ file, x = .str file

/-- An object with a task that can be looked up, and with the files it reads and writes. -/
structure StageSpec (spec : Value) : Prop where
  shape : ∃ entries task, spec = .dict entries ∧
    entries.lookup (codePoints "task") = some (.str task) ∧
    (∃ found, lookUp (.str task) = .ok found) ∧
    FileList "reads" entries ∧ FileList "writes" entries

/-- What the answer holds is an object, its first stages are stages, and where it has none, the
task itself can be looked up. -/
structure Composable : Prop where
  object : ∀ v, extractJsonFromLlm L answer = .ok v → v.IsDict
  stages : ∀ spec ∈ (answeredStages L answer).take maxStages, StageSpec lookUp spec
  task : answeredStages L answer = [] → ∃ found, lookUp (.str task) = .ok found

end Conditions

section Totality
variable {L : Limits} {lookUp : Value → Except RecallError (List Match)} {task : CodePoints}
  {answer : Text}

theorem stringList_isSome_iff (v : Value) :
    (∃ files, stringList v = some files) ↔
      ∃ items, v = .list items ∧ ∀ x ∈ items, ∃ file, x = .str file := by
  have hstr : ∀ x : Value, (∃ file, x.str? = some file) ↔ ∃ file, x = .str file := by
    intro x
    cases x with
    | str points => simp [Value.str?]
    | _ => simp [Value.str?]
  cases v with
  | list items =>
      have hitems : (∃ files, items.mapM Value.str? = some files) ↔
          ∀ x ∈ items, ∃ file, x = .str file := by
        induction items with
        | nil => simp
        | cons x items ih =>
            rw [List.forall_mem_cons, ← hstr, ← ih]
            constructor
            · intro h
              obtain ⟨files, hfiles⟩ := h
              simp only [List.mapM_cons, Option.bind_eq_bind, Option.bind_eq_some_iff] at hfiles
              obtain ⟨file, hfile, rest, hrest, _⟩ := hfiles
              exact ⟨⟨file, hfile⟩, rest, hrest⟩
            · intro h
              obtain ⟨⟨file, hfile⟩, rest, hrest⟩ := h
              exact ⟨file :: rest, by simp [List.mapM_cons, hfile, hrest]⟩
      simpa [stringList] using hitems
  | _ => simp [stringList]

theorem getOrEmpty_isSome_iff (key : String) (entries : List (CodePoints × Value)) :
    (∃ files, stringList (getOrEmpty key entries) = some files) ↔ FileList key entries := by
  rw [stringList_isSome_iff, FileList, getOrEmpty]
  cases entries.lookup (codePoints key) with
  | none => simp
  | some v =>
      by_cases hv : v.truthy
      · simp [hv]
      · simp [hv]

theorem pipelineStage_iff (i : ℕ) (task : Value) (entries : List (CodePoints × Value))
    (matched : Option Match) :
    (∃ stage, pipelineStage i task entries matched = .ok stage) ↔
      (∃ t, task = .str t) ∧ FileList "reads" entries ∧ FileList "writes" entries := by
  rw [← getOrEmpty_isSome_iff, ← getOrEmpty_isSome_iff, pipelineStage]
  cases task with
  | str t =>
      cases stringList (getOrEmpty "reads" entries) with
      | none => simp [Value.str?]
      | some reads =>
          cases stringList (getOrEmpty "writes" entries) with
          | none => simp [Value.str?]
          | some writes => simp [Value.str?]
  | _ => simp [Value.str?]

theorem buildStage_iff (i : ℕ) (spec : Value) :
    (∃ stage, buildStage lookUp i spec = .ok stage) ↔ StageSpec lookUp spec := by
  constructor
  · intro h
    cases spec with
    | dict entries =>
        obtain ⟨stage, hstage⟩ := h
        rw [buildStage] at hstage
        cases htask : entries.lookup (codePoints "task") with
        | none =>
            rw [htask] at hstage
            cases hstage
        | some task =>
            simp only [htask] at hstage
            cases hfound : lookUp task with
            | error e =>
                rw [hfound] at hstage
                cases hstage
            | ok found =>
                simp only [hfound] at hstage
                obtain ⟨⟨t, rfl⟩, hreads, hwrites⟩ :=
                  (pipelineStage_iff i task entries _).mp ⟨stage, hstage⟩
                exact ⟨entries, t, rfl, htask, ⟨found, hfound⟩, hreads, hwrites⟩
    | _ =>
        obtain ⟨stage, hstage⟩ := h
        cases hstage
  · intro h
    obtain ⟨entries, t, rfl, htask, ⟨found, hfound⟩, hfiles⟩ := h.shape
    simp only [buildStage, htask, hfound]
    exact (pipelineStage_iff i (.str t) entries _).mpr ⟨⟨t, rfl⟩, hfiles⟩

theorem buildStages_iff (i : ℕ) (specs : List Value) :
    (∃ stages, buildStages lookUp i specs = .ok stages) ↔
      ∀ spec ∈ specs, StageSpec lookUp spec := by
  induction specs generalizing i with
  | nil => simp [buildStages]
  | cons spec specs ih =>
      rw [List.forall_mem_cons, ← buildStage_iff i, ← ih (i + 1), buildStages]
      constructor
      · intro h
        obtain ⟨stages, hstages⟩ := h
        cases hstage : buildStage lookUp i spec with
        | error e =>
            rw [hstage] at hstages
            cases hstages
        | ok stage =>
            cases hrest : buildStages lookUp (i + 1) specs with
            | error e =>
                rw [hstage, hrest] at hstages
                cases hstages
            | ok rest => exact ⟨⟨stage, rfl⟩, rest, rfl⟩
      · intro h
        obtain ⟨⟨stage, hstage⟩, rest, hrest⟩ := h
        exact ⟨stage :: rest, by rw [hstage, hrest]; rfl⟩

theorem compose_eq {T : InputText} {specs : List Value}
    (h : decompose L task answer = .ok specs) :
    ∃ pipelineOf : List PipelineStage → Pipeline, (∀ stages, (pipelineOf stages).stages = stages) ∧
      compose T L lookUp task answer =
        (buildStages lookUp 0 (specs.take maxStages)).map pipelineOf := by
  refine ⟨fun stages =>
    { task := task
      stages := stages
      valid := (validateContracts (stages.map PipelineStage.toDict)
        (some (inferInitialInputs T task))).isEmpty
      contractErrors := validateContracts (stages.map PipelineStage.toDict)
        (some (inferInitialInputs T task)) }, fun _ => rfl, ?_⟩
  rw [compose, h]
  cases hstages : buildStages lookUp 0 (specs.take maxStages) with
  | error e =>
      change (buildStages lookUp 0 (specs.take maxStages) >>= _) = _
      rw [hstages]
      rfl
  | ok stages =>
      change (buildStages lookUp 0 (specs.take maxStages) >>= _) = _
      rw [hstages]
      rfl

theorem stageSpec_fallback :
    StageSpec lookUp (fallbackStage task) ↔ ∃ found, lookUp (.str task) = .ok found := by
  constructor
  · intro h
    obtain ⟨entries, t, hentries, htask, hfound, _⟩ := h.shape
    cases hentries
    cases htask
    exact hfound
  · intro h
    refine ⟨_, task, rfl, rfl, h, ?_, ?_⟩
    · intro v hv _
      cases hv
      exact ⟨[], rfl, by simp⟩
    · intro v hv _
      cases hv
      exact ⟨_, rfl, by simp⟩

theorem buildStages_fallback {stages : List PipelineStage}
    (h : buildStages lookUp 0 [fallbackStage task] = .ok stages) :
    ∃ stage, stages = [stage] ∧ stage.task = task := by
  have hlookup : buildStage lookUp 0 (fallbackStage task) = match lookUp (.str task) with
      | .error e => .error (.lookUp e)
      | .ok found => pipelineStage 0 (.str task) _ found.head? := rfl
  rw [buildStages, hlookup] at h
  cases hfound : lookUp (.str task) with
  | error e =>
      rw [hfound] at h
      cases h
  | ok found =>
      rw [hfound] at h
      cases h
      exact ⟨_, rfl, rfl⟩

theorem decompose_spec (h : ∀ v, extractJsonFromLlm L answer = .ok v → v.IsDict) :
    (answeredStages L answer = [] → decompose L task answer = .ok [fallbackStage task]) ∧
      (answeredStages L answer ≠ [] →
        decompose L task answer = .ok (answeredStages L answer)) := by
  rw [decompose, answeredStages]
  cases hanswer : extractJsonFromLlm L answer with
  | error e => exact ⟨fun _ => rfl, fun hne => absurd rfl hne⟩
  | ok v =>
      cases v with
      | dict entries =>
          cases hstages : entries.lookup (codePoints "stages") with
          | none => simp [hstages]
          | some stages =>
              cases stages with
              | list specs =>
                  simp only [hstages]
                  cases specs with
                  | nil => exact ⟨fun _ => rfl, fun hne => absurd rfl hne⟩
                  | cons spec specs => exact ⟨fun hnil => (nomatch hnil), fun _ => rfl⟩
              | _ => simp [hstages]
      | _ => exact absurd (h _ hanswer) id

theorem decompose_raises {v : Value} (h : extractJsonFromLlm L answer = .ok v)
    (hv : ¬ v.IsDict) : decompose L task answer = .error .attribute := by
  rw [decompose, h]
  cases v with
  | dict entries => exact absurd trivial hv
  | _ => rfl

variable (T : InputText)

theorem composes_of_fallback (h : decompose L task answer = .ok [fallbackStage task]) :
    Composes L lookUp task answer T ↔ ∃ found, lookUp (.str task) = .ok found := by
  obtain ⟨pipelineOf, hstages, hcompose⟩ := compose_eq (T := T) h
  have hbuild : (∃ stages, buildStages lookUp 0 [fallbackStage task] = .ok stages) ↔
      ∃ found, lookUp (.str task) = .ok found := by
    rw [buildStages_iff, List.forall_mem_singleton, stageSpec_fallback]
  rw [← hbuild, Composes, hcompose]
  constructor
  · intro hpipeline
    obtain ⟨pipeline, hpipeline, _⟩ := hpipeline
    cases hrun : buildStages lookUp 0 [fallbackStage task] with
    | error e =>
        rw [show [fallbackStage task].take maxStages = [fallbackStage task] from rfl, hrun]
          at hpipeline
        cases hpipeline
    | ok stages => exact ⟨stages, rfl⟩
  · intro hrun
    obtain ⟨stages, hrun⟩ := hrun
    refine ⟨pipelineOf stages, ?_, fun _ => ?_⟩
    · rw [show [fallbackStage task].take maxStages = [fallbackStage task] from rfl, hrun]
      rfl
    · rw [hstages]
      exact buildStages_fallback hrun

theorem composes_of_stages (hne : answeredStages L answer ≠ [])
    (h : decompose L task answer = .ok (answeredStages L answer)) :
    Composes L lookUp task answer T ↔
      ∀ spec ∈ (answeredStages L answer).take maxStages, StageSpec lookUp spec := by
  obtain ⟨pipelineOf, _, hcompose⟩ := compose_eq (T := T) h
  rw [← buildStages_iff 0, Composes, hcompose]
  cases hrun : buildStages lookUp 0 ((answeredStages L answer).take maxStages) with
  | error e =>
      constructor
      · intro hpipeline
        obtain ⟨pipeline, hpipeline, _⟩ := hpipeline
        cases hpipeline
      · intro hstages
        obtain ⟨stages, hstages⟩ := hstages
        cases hstages
  | ok stages =>
      constructor
      · intro _
        exact ⟨stages, rfl⟩
      · intro _
        exact ⟨pipelineOf stages, rfl, fun hnil => absurd hnil hne⟩

variable (L lookUp task answer) in
/-- Composition comes back with a pipeline exactly for the answers that are composable. -/
theorem composes_iff : Composes L lookUp task answer T ↔ Composable L lookUp task answer := by
  constructor
  · intro h
    have hobject : ∀ v, extractJsonFromLlm L answer = .ok v → v.IsDict := by
      intro v hv
      by_contra hnot
      obtain ⟨pipeline, hpipeline, _⟩ := h
      rw [compose, decompose_raises hv hnot] at hpipeline
      cases hpipeline
    obtain ⟨hfallback, hstages⟩ := decompose_spec hobject
    by_cases hnil : answeredStages L answer = []
    · have hfound := (composes_of_fallback T (hfallback hnil)).mp h
      exact ⟨hobject, by simp [hnil], fun _ => hfound⟩
    · exact ⟨hobject, (composes_of_stages T hnil (hstages hnil)).mp h, fun h => absurd h hnil⟩
  · intro h
    obtain ⟨hfallback, hstages⟩ := decompose_spec h.object
    by_cases hnil : answeredStages L answer = []
    · exact (composes_of_fallback T (hfallback hnil)).mpr (h.task hnil)
    · exact (composes_of_stages T hnil (hstages hnil)).mpr h.stages

/-- The characters of ASCII words. -/
def asciiInput : InputText where
  isWord c := (Char.ofNat c).isAlphanum || c = '_'.toNat
  sameLetter a b := (Char.ofNat a).toLower = (Char.ofNat b).toLower
  lower := List.map fun c => (Char.ofNat c).toLower.toNat

/-- An answer that is a list raises, where the task itself could have been a stage. -/
theorem list_raises :
    compose asciiInput defaultLimits (fun _ => .ok []) (codePoints "build") ['[', '1', ']'] =
        .error .attribute ∧
      ¬ Composes defaultLimits (fun _ => .ok []) (codePoints "build") ['[', '1', ']']
        asciiInput := by
  have hlist : extractJsonFromLlm defaultLimits ['[', '1', ']'] = .ok (.list [.int 1]) := by rfl
  have hraises : compose asciiInput defaultLimits (fun _ => .ok []) (codePoints "build")
      ['[', '1', ']'] = .error .attribute := by
    rw [compose, decompose_raises hlist id]
    rfl
  refine ⟨hraises, ?_⟩
  intro h
  obtain ⟨pipeline, hpipeline, _⟩ := h
  rw [hraises] at hpipeline
  cases hpipeline

end Totality

end Engramia.Composition
