import Engramia.Library.JsonText
import Engramia.Library.Lists
import Mathlib.Data.List.Nodup

/-!
The contracts of a pipeline. One pass over the stages collects the files that are available
and the stage that first wrote each of them, and reports what a stage reads without a source
or writes a second time. Nothing is reported exactly for the stages that are well formed.
-/
namespace Engramia.Composition
open Engramia.Library Engramia.Library.JsonText

/-- The dict of a stage, with the keys that are there. -/
structure StageDict where
  name : Option CodePoints
  task : Option CodePoints
  reads : Option (List CodePoints)
  writes : Option (List CodePoints)

namespace StageDict

/-- `stage.get("reads") or []` -/
def readFiles (stage : StageDict) : List CodePoints := stage.reads.getD []

def writtenFiles (stage : StageDict) : List CodePoints := stage.writes.getD []

/-- The first of `name`, `task` and `stage_{i}` that is not empty. -/
def label (i : Nat) (stage : StageDict) : CodePoints :=
  let named := stage.name.getD []
  let described := stage.task.getD []
  if named ≠ [] then named
  else if described ≠ [] then described
  else codePoints "stage_" ++ codePoints (toString i)

end StageDict

/-- An error of the contracts, with what its message is made of. -/
inductive ContractError where
  | selfCycle (stage : CodePoints) (files : List CodePoints)
  | missing (stage : CodePoints) (files : List CodePoints)
  | rewritten (stage file first : CodePoints)

section Messages
variable (isPrintable : ℕ → Bool)

def hexDigits : (width : ℕ) → ℕ → CodePoints
  | 0, _ => []
  | width + 1, n =>
      hexDigits width (n / 16) ++ [if n % 16 < 10 then 48 + n % 16 else 87 + n % 16]

def reprChar (quote ch : ℕ) : CodePoints :=
  if ch = quote ∨ ch = 92 then [92, ch]
  else if ch = 9 then codePoints "\\t"
  else if ch = 10 then codePoints "\\n"
  else if ch = 13 then codePoints "\\r"
  else if isPrintable ch then [ch]
  else if ch < 256 then codePoints "\\x" ++ hexDigits 2 ch
  else if ch < 65536 then codePoints "\\u" ++ hexDigits 4 ch
  else codePoints "\\U" ++ hexDigits 8 ch

/-- `repr` of a text, in double quotes if it has a single quote and no double one. -/
def reprText (text : CodePoints) : CodePoints :=
  let quote := if 39 ∈ text ∧ 34 ∉ text then 34 else 39
  quote :: text.flatMap (reprChar isPrintable quote) ++ [quote]

def reprList (files : List CodePoints) : CodePoints :=
  codePoints "[" ++ (codePoints ", ").intercalate (files.map (reprText isPrintable)) ++
    codePoints "]"

/-- A message begins with the stage. -/
def aboutStage (stage rest : CodePoints) : CodePoints :=
  codePoints "Stage '" ++ stage ++ rest

namespace ContractError

def message : ContractError → CodePoints
  | selfCycle stage files =>
      aboutStage stage (codePoints "' has a self-cycle: it both reads and writes " ++
        reprList isPrintable files ++ codePoints ".")
  | missing stage files =>
      aboutStage stage (codePoints "' reads " ++ reprList isPrintable files ++
        codePoints " but these files are not produced by any prior stage.")
  | rewritten stage file first =>
      aboutStage stage (codePoints "' writes '" ++ file ++
        (codePoints "' which was already written by stage '" ++ first ++
          codePoints "'. This creates a circular or ambiguous data-flow."))

def stage : ContractError → CodePoints
  | selfCycle stage _ => stage
  | missing stage _ => stage
  | rewritten stage _ _ => stage

/-- The files of an error, as its message spells them. -/
def spelled : ContractError → List CodePoints
  | selfCycle _ files => files.map (reprText isPrintable)
  | missing _ files => files.map (reprText isPrintable)
  | rewritten _ file _ => [file]

theorem stage_infix_message (e : ContractError) : e.stage <:+: e.message isPrintable := by
  cases e with
  | selfCycle stage files => exact ⟨codePoints "Stage '", _, rfl⟩
  | missing stage files => exact ⟨codePoints "Stage '", _, rfl⟩
  | rewritten stage file first => exact ⟨codePoints "Stage '", _, rfl⟩

theorem spelled_infix_reprList {f : CodePoints} {files : List CodePoints}
    (hf : f ∈ files.map (reprText isPrintable)) : f <:+: reprList isPrintable files :=
  (infix_intercalate hf).trans ⟨codePoints "[", codePoints "]", rfl⟩

theorem spelled_infix_message {e : ContractError} {f : CodePoints}
    (hf : f ∈ e.spelled isPrintable) : f <:+: e.message isPrintable := by
  cases e with
  | selfCycle stage files =>
      have hrest : f <:+: codePoints "' has a self-cycle: it both reads and writes " ++
          reprList isPrintable files ++ codePoints "." :=
        (spelled_infix_reprList isPrintable hf).trans ⟨_, _, rfl⟩
      exact hrest.trans (List.suffix_append _ _).isInfix
  | missing stage files =>
      have hrest : f <:+: codePoints "' reads " ++ reprList isPrintable files ++
          codePoints " but these files are not produced by any prior stage." :=
        (spelled_infix_reprList isPrintable hf).trans ⟨_, _, rfl⟩
      exact hrest.trans (List.suffix_append _ _).isInfix
  | rewritten stage file first =>
      rw [List.mem_singleton.mp hf]
      have hrest : file <:+: codePoints "' writes '" ++ file ++
          (codePoints "' which was already written by stage '" ++ first ++
            codePoints "'. This creates a circular or ambiguous data-flow.") := ⟨_, _, rfl⟩
      exact hrest.trans (List.suffix_append _ _).isInfix

end ContractError

end Messages

/-- The variables of the pass. -/
structure ContractPass where
  available : List CodePoints
  writtenBy : List (CodePoints × CodePoints)
  errors : List ContractError

namespace ContractPass

/-- The error is there when it names a file. -/
def report (pass : ContractPass) (error : List CodePoints → ContractError)
    (files : List CodePoints) : ContractPass :=
  if files = [] then pass else { pass with errors := pass.errors ++ [error files] }

def noteWrite (stage : CodePoints) (pass : ContractPass) (file : CodePoints) : ContractPass :=
  match pass.writtenBy.lookup file with
  | some first => { pass with errors := pass.errors ++ [.rewritten stage file first] }
  | none => { pass with writtenBy := pass.writtenBy ++ [(file, stage)] }

def checkStage (i : Nat) (stage : StageDict) (pass : ContractPass) : ContractPass :=
  let reads := stage.readFiles
  let writes := stage.writtenFiles
  let name := stage.label i
  let pass := pass.report (.selfCycle name) (reads.filter (· ∈ writes))
  let pass := pass.report (.missing name)
    (reads.filter fun f => f ∉ pass.available ∧ f ∉ writes)
  let pass := writes.foldl (noteWrite name) pass
  { pass with available := pass.available ++ writes }

/-- The stages from the `i`th on. -/
def checkStages (pass : ContractPass) (i : Nat) : List StageDict → ContractPass
  | [] => pass
  | stage :: stages => (pass.checkStage i stage).checkStages (i + 1) stages

end ContractPass

/-- `validate_contracts` -/
def validateContracts (stages : List StageDict) (initialInputs : Option (List CodePoints)) :
    List ContractError :=
  let pass : ContractPass := { available := initialInputs.getD [], writtenBy := [], errors := [] }
  (pass.checkStages 0 stages).errors

/-- No stage reads what it writes, every file has its source before the stage that reads it,
and no file is written twice. -/
structure WellFormed (stages : List StageDict) (initial : List CodePoints) : Prop where
  acyclic : ∀ stage ∈ stages, stage.readFiles.Disjoint stage.writtenFiles
  sourced : ∀ before stage after, stages = before ++ stage :: after →
    ∀ f ∈ stage.readFiles, f ∈ initial ∨ ∃ earlier ∈ before, f ∈ earlier.writtenFiles
  writtenOnce : (stages.flatMap StageDict.writtenFiles).Nodup

section Steps
variable {pass : ContractPass} {stage : CodePoints} {files : List CodePoints}

namespace ContractPass

def Clean (pass : ContractPass) : Prop := pass.errors = []

def written (pass : ContractPass) : List CodePoints := pass.writtenBy.map Prod.fst

theorem report_clean_iff (error : List CodePoints → ContractError) :
    (pass.report error files).Clean ↔ pass.Clean ∧ files = [] := by
  unfold report Clean
  by_cases hfiles : files = []
  · simp [hfiles]
  · simp [hfiles]

theorem report_available (error : List CodePoints → ContractError) :
    (pass.report error files).available = pass.available := by
  unfold report
  split
  · rfl
  · rfl

theorem report_written (error : List CodePoints → ContractError) :
    (pass.report error files).written = pass.written := by
  unfold report
  split
  · rfl
  · rfl

/-- Every error spells a file. -/
def Spelling (isPrintable : ℕ → Bool) (pass : ContractPass) : Prop :=
  ∀ e ∈ pass.errors, e.spelled isPrintable ≠ []

theorem spelling_append {isPrintable : ℕ → Bool} (h : pass.Spelling isPrintable)
    {e : ContractError} (he : e.spelled isPrintable ≠ []) :
    Spelling isPrintable { pass with errors := pass.errors ++ [e] } := by
  intro e' he'
  cases List.mem_append.mp he' with
  | inl hold => exact h e' hold
  | inr hnew => exact List.mem_singleton.mp hnew ▸ he

theorem spelling_report {isPrintable : ℕ → Bool} (error : List CodePoints → ContractError)
    (h : pass.Spelling isPrintable)
    (herror : ∀ files, (error files).spelled isPrintable = files.map (reprText isPrintable)) :
    (pass.report error files).Spelling isPrintable := by
  unfold report
  by_cases hfiles : files = []
  · rwa [if_pos hfiles]
  · rw [if_neg hfiles]
    refine spelling_append h ?_
    rwa [herror, Ne, List.map_eq_nil_iff]

theorem spelling_noteWrites {isPrintable : ℕ → Bool} (h : pass.Spelling isPrintable) :
    (files.foldl (noteWrite stage) pass).Spelling isPrintable := by
  induction files generalizing pass with
  | nil => exact h
  | cons f files ih =>
      apply ih
      unfold noteWrite
      cases pass.writtenBy.lookup f with
      | none => exact h
      | some first => exact spelling_append h (List.cons_ne_nil _ _)

theorem spelling_checkStages {isPrintable : ℕ → Bool} (h : pass.Spelling isPrintable) (i : ℕ)
    (stages : List StageDict) : (pass.checkStages i stages).Spelling isPrintable := by
  induction stages generalizing pass i with
  | nil => exact h
  | cons s stages ih =>
      refine ih ?_ (i + 1)
      unfold checkStage
      change Spelling isPrintable (List.foldl _ _ _)
      exact spelling_noteWrites
        (spelling_report _ (spelling_report _ h fun _ => rfl) fun _ => rfl)

theorem noteWrite_available (file : CodePoints) :
    (pass.noteWrite stage file).available = pass.available := by
  unfold noteWrite
  split
  · rfl
  · rfl

theorem noteWrite_clean_iff (stage file : CodePoints) :
    (pass.noteWrite stage file).Clean ↔ pass.Clean ∧ file ∉ pass.written := by
  have hlookup : pass.writtenBy.lookup file = none ↔ file ∉ pass.written := by
    simp only [List.lookup_eq_none_iff, bne_iff_ne, written, List.mem_map, not_exists, not_and,
      ne_comm]
  unfold noteWrite Clean
  cases h : pass.writtenBy.lookup file with
  | none => simp [hlookup.mp h]
  | some first =>
      have hmem : file ∈ pass.written := by
        apply Decidable.of_not_not
        intro hnot
        rw [hlookup.mpr hnot] at h
        cases h
      simp [hmem]

theorem noteWrite_written {file : CodePoints} (h : (pass.noteWrite stage file).Clean) :
    (pass.noteWrite stage file).written = pass.written ++ [file] := by
  unfold noteWrite at h ⊢
  cases hlookup : pass.writtenBy.lookup file with
  | none => simp [written]
  | some first =>
      rw [hlookup] at h
      simp [Clean] at h

theorem noteWrites_available :
    (files.foldl (noteWrite stage) pass).available = pass.available := by
  induction files generalizing pass with
  | nil => rfl
  | cons f files ih => exact ih.trans (noteWrite_available f)

theorem noteWrites_clean_iff :
    (files.foldl (noteWrite stage) pass).Clean ↔
      pass.Clean ∧ files.Nodup ∧ pass.written.Disjoint files := by
  induction files generalizing pass with
  | nil => simp
  | cons f files ih =>
      rw [List.foldl_cons, ih, noteWrite_clean_iff, List.nodup_cons, List.disjoint_cons_right]
      constructor
      · intro h
        have hw := noteWrite_written ((noteWrite_clean_iff stage f).mpr h.1)
        rw [hw, List.disjoint_append_left] at h
        have hf : f ∉ files := fun hmem => h.2.2.2 List.mem_cons_self hmem
        exact ⟨h.1.1, ⟨hf, h.2.1⟩, h.1.2, h.2.2.1⟩
      · intro h
        have hw := noteWrite_written ((noteWrite_clean_iff stage f).mpr ⟨h.1, h.2.2.1⟩)
        rw [hw, List.disjoint_append_left, List.singleton_disjoint]
        exact ⟨⟨h.1, h.2.2.1⟩, h.2.1.2, h.2.2.2, h.2.1.1⟩

theorem noteWrites_written (h : (files.foldl (noteWrite stage) pass).Clean) :
    (files.foldl (noteWrite stage) pass).written = pass.written ++ files := by
  induction files generalizing pass with
  | nil => simp
  | cons f files ih =>
      have hfirst : (pass.noteWrite stage f).Clean := by
        rw [List.foldl_cons] at h
        exact (noteWrites_clean_iff.mp h).1
      rw [List.foldl_cons, ih h, noteWrite_written hfirst, List.append_assoc]
      rfl

end ContractPass

end Steps

section Passes
variable {pass : ContractPass} {stage : StageDict} {stages : List StageDict}
  {available written initial : List CodePoints}

/-- What the pass asks of the stages that are left, by the files that are available and those
that are written. -/
def Chained (available written : List CodePoints) : List StageDict → Prop
  | [] => True
  | stage :: stages =>
      stage.readFiles.Disjoint stage.writtenFiles ∧ (∀ f ∈ stage.readFiles, f ∈ available) ∧
        stage.writtenFiles.Nodup ∧ written.Disjoint stage.writtenFiles ∧
        Chained (available ++ stage.writtenFiles) (written ++ stage.writtenFiles) stages

theorem checkStage_clean_iff (i : Nat) :
    (pass.checkStage i stage).Clean ↔
      pass.Clean ∧ stage.readFiles.Disjoint stage.writtenFiles ∧
        (∀ f ∈ stage.readFiles, f ∈ pass.available) ∧ stage.writtenFiles.Nodup ∧
        pass.written.Disjoint stage.writtenFiles := by
  have hself : stage.readFiles.filter (· ∈ stage.writtenFiles) = [] ↔
      stage.readFiles.Disjoint stage.writtenFiles := by
    simp [List.filter_eq_nil_iff, List.Disjoint]
  have hmissing : stage.readFiles.Disjoint stage.writtenFiles →
      (stage.readFiles.filter (fun f => f ∉ pass.available ∧ f ∉ stage.writtenFiles) = [] ↔
        ∀ f ∈ stage.readFiles, f ∈ pass.available) := by
    intro hdisjoint
    rw [List.filter_eq_nil_iff]
    constructor
    · intro h f hf
      have hnot := h f hf
      simp only [decide_eq_true_eq, not_and, not_not] at hnot
      exact Decidable.of_not_not fun ha => hdisjoint hf (hnot ha)
    · intro h f hf
      simp [h f hf]
  unfold ContractPass.checkStage
  change ContractPass.Clean (List.foldl _ _ _) ↔ _
  rw [ContractPass.noteWrites_clean_iff, ContractPass.report_clean_iff,
    ContractPass.report_clean_iff, ContractPass.report_available, ContractPass.report_written,
    ContractPass.report_written, hself]
  constructor
  · intro h
    exact ⟨h.1.1.1, h.1.1.2, (hmissing h.1.1.2).mp h.1.2, h.2⟩
  · intro h
    exact ⟨⟨⟨h.1, h.2.1⟩, (hmissing h.2.1).mpr h.2.2.1⟩, h.2.2.2⟩

theorem checkStage_available (i : Nat) :
    (pass.checkStage i stage).available = pass.available ++ stage.writtenFiles := by
  unfold ContractPass.checkStage
  simp only [ContractPass.noteWrites_available, ContractPass.report_available]

theorem checkStage_written {i : Nat} (h : (pass.checkStage i stage).Clean) :
    (pass.checkStage i stage).written = pass.written ++ stage.writtenFiles := by
  unfold ContractPass.checkStage at h ⊢
  refine Eq.trans (ContractPass.noteWrites_written h) ?_
  rw [ContractPass.report_written, ContractPass.report_written]

variable (pass stages) in
/-- The invariant of the pass: nothing has been reported, and the stages that are left ask no
more than what is available and written by now. -/
theorem checkStages_clean_iff (i : Nat) :
    (pass.checkStages i stages).Clean ↔
      pass.Clean ∧ Chained pass.available pass.written stages := by
  induction stages generalizing pass i with
  | nil => simp [ContractPass.checkStages, Chained]
  | cons stage stages ih =>
      rw [ContractPass.checkStages, ih, checkStage_available, Chained]
      constructor
      · intro h
        have hstage := (checkStage_clean_iff i).mp h.1
        rw [checkStage_written h.1] at h
        exact ⟨hstage.1, hstage.2.1, hstage.2.2.1, hstage.2.2.2.1, hstage.2.2.2.2, h.2⟩
      · intro h
        have hstage : (pass.checkStage i stage).Clean :=
          (checkStage_clean_iff i).mpr ⟨h.1, h.2.1, h.2.2.1, h.2.2.2.1, h.2.2.2.2.1⟩
        rw [checkStage_written hstage]
        exact ⟨hstage, h.2.2.2.2.2⟩

theorem wellFormed_nil : WellFormed [] initial :=
  ⟨by simp, by simp, List.nodup_nil⟩

theorem wellFormed_cons_iff : WellFormed (stage :: stages) initial ↔
    stage.readFiles.Disjoint stage.writtenFiles ∧ (∀ f ∈ stage.readFiles, f ∈ initial) ∧
      stage.writtenFiles.Nodup ∧
      stage.writtenFiles.Disjoint (stages.flatMap StageDict.writtenFiles) ∧
      WellFormed stages (initial ++ stage.writtenFiles) := by
  constructor
  · intro h
    have honce := h.writtenOnce
    rw [List.flatMap_cons, List.nodup_append'] at honce
    refine ⟨h.acyclic stage List.mem_cons_self, ?_, honce.1, honce.2.2, ?_, ?_, honce.2.1⟩
    · intro f hf
      cases h.sourced [] stage stages rfl f hf with
      | inl hinitial => exact hinitial
      | inr hearlier => simp at hearlier
    · intro s hs
      exact h.acyclic s (List.mem_cons_of_mem _ hs)
    · intro before s after hstages f hf
      cases h.sourced (stage :: before) s after (by rw [hstages]; rfl) f hf with
      | inl hinitial => exact .inl (List.mem_append_left _ hinitial)
      | inr hearlier =>
          obtain ⟨t, ht, hft⟩ := hearlier
          cases List.mem_cons.mp ht with
          | inl heq => exact .inl (List.mem_append_right _ (heq ▸ hft))
          | inr hbefore => exact .inr ⟨t, hbefore, hft⟩
  · intro h
    obtain ⟨hself, hreads, hnodup, hapart, hrest⟩ := h
    refine ⟨?_, ?_, ?_⟩
    · intro s hs
      cases List.mem_cons.mp hs with
      | inl heq => exact heq ▸ hself
      | inr hmem => exact hrest.acyclic s hmem
    · intro before s after hstages f hf
      cases before with
      | nil =>
          cases hstages
          exact .inl (hreads f hf)
      | cons t before =>
          cases hstages
          cases hrest.sourced before s after rfl f hf with
          | inl havailable =>
              cases List.mem_append.mp havailable with
              | inl hinitial => exact .inl hinitial
              | inr hwritten => exact .inr ⟨stage, List.mem_cons_self, hwritten⟩
          | inr hearlier =>
              obtain ⟨u, hu, hfu⟩ := hearlier
              exact .inr ⟨u, List.mem_cons_of_mem _ hu, hfu⟩
    · rw [List.flatMap_cons, List.nodup_append']
      exact ⟨hnodup, hrest.writtenOnce, hapart⟩

theorem chained_iff : Chained available written stages ↔
    WellFormed stages available ∧ written.Disjoint (stages.flatMap StageDict.writtenFiles) := by
  induction stages generalizing available written with
  | nil => simp [Chained, wellFormed_nil]
  | cons stage stages ih =>
      rw [Chained, ih, wellFormed_cons_iff, List.flatMap_cons, List.disjoint_append_left,
        List.disjoint_append_right]
      constructor
      · intro h
        obtain ⟨hself, hreads, hnodup, hnew, hrest, hold, hapart⟩ := h
        exact ⟨⟨hself, hreads, hnodup, hapart, hrest⟩, hnew, hold⟩
      · intro h
        obtain ⟨⟨hself, hreads, hnodup, hapart, hrest⟩, hnew, hold⟩ := h
        exact ⟨hself, hreads, hnodup, hnew, hrest, hold, hapart⟩

theorem validateContracts_spelled (isPrintable : ℕ → Bool) (stages : List StageDict)
    (initialInputs : Option (List CodePoints)) :
    ∀ e ∈ validateContracts stages initialInputs, e.spelled isPrintable ≠ [] :=
  ContractPass.spelling_checkStages (fun _ he => absurd he List.not_mem_nil) 0 stages

/-- Contract validation decides whether the stages are well formed. -/
theorem validateContracts_eq_nil_iff (stages : List StageDict)
    (initialInputs : Option (List CodePoints)) :
    validateContracts stages initialInputs = [] ↔
      WellFormed stages (initialInputs.getD []) := by
  have h := checkStages_clean_iff
    { available := initialInputs.getD [], writtenBy := [], errors := [] } stages 0
  refine h.trans ?_
  rw [chained_iff]
  constructor
  · intro h
    exact h.2.1
  · intro h
    exact ⟨rfl, h, List.disjoint_nil_left _⟩

end Passes

end Engramia.Composition
