import Engramia.Patterns.Outcomes

/-!
What redaction covers of what is persisted. The pipeline scans the task together
with the design, but only the design is taken from its result: the task goes as it
is into the record and into the evaluation history. On Postgres the labels are then
mirrored into the record as they were given.
-/
namespace Engramia.Patterns
open Engramia.Library Engramia.Storage

variable {F : Type} {svc : LearningService} {env : Env F} {c : LearnCall}
  {st : PatternStore F} {hooks : List RedactionHook}

/-- The texts of a stored pattern, with the key it is stored under. -/
def Record.texts (r : Record) (key : Text) : List Text :=
  key :: (r.task.toList ++ r.authorKeyId.toList ++ r.design.entries.map Prod.snd)

def EvalRecord.texts (e : EvalRecord) : List Text :=
  [e.agentName, e.task, e.scores.feedback]

/-- No text written by the call is one that the pipeline detects something in. -/
structure PersistsRedacted (hooks : List RedactionHook) (svc : LearningService) (env : Env F)
    (c : LearnCall) (st : PatternStore F) : Prop where
  pattern : ∀ key r, writtenKey svc env c st.patterns = some key →
    (final (learn svc env c st)).patterns.get? key = some r →
      ∀ text ∈ r.texts key, Undetected hooks text
  evaluation : ∀ e ∈ (final (learn svc env c st)).evals, e ∉ st.evals →
    ∀ text ∈ e.texts, Undetected hooks text

/-- A field that is stored as the pipeline returns it. -/
def Redactable (hooks : List RedactionHook) (text : Text) : Prop :=
  text = [] ∨ Undisturbed hooks text

/-- What is stored as it was given is clean, and no hook undoes an earlier one on
what is redacted. -/
structure RedactionSuffices (hooks : List RedactionHook) (svc : LearningService) (env : Env F)
    (c : LearnCall) (index : Index F) (key : Text) : Prop where
  key : Undetected hooks key
  task : Undetected hooks c.task
  author : ∀ author, c.author = some author → Undetected hooks author
  code : Redactable hooks c.code
  output : ∀ output, c.output = some output → Redactable hooks output
  labels : if embedError svc env c index = none ∧ mirrors svc env then
      Undetected hooks c.classification ∧ Undetected hooks c.source
    else Redactable hooks c.classification ∧ Redactable hooks c.source

section Fields

def processed (hooks : List RedactionHook) (text : Text) : Text :=
  if text.isEmpty then text else cleaned hooks text

theorem undetected_nil : Undetected hooks [] := fun _ _ => rfl

theorem processed_of_undetected {text : Text} (h : Undetected hooks text) :
    processed hooks text = text := by
  rw [processed]
  by_cases hempty : text.isEmpty = true
  · rw [if_pos hempty]
  · rw [if_neg hempty]
    exact cleaned_of_undetected h fun hnil => hempty (by rw [hnil]; rfl)

theorem undetected_processed_iff (h : ∀ hook ∈ hooks, hook.Removes) {text : Text} :
    Undetected hooks (processed hooks text) ↔ Redactable hooks text := by
  rw [processed, Redactable]
  by_cases hempty : text = []
  · rw [hempty]
    exact iff_of_true undetected_nil (.inl rfl)
  · rw [if_neg (by simpa using hempty), undetected_cleaned_iff h]
    exact ⟨.inr, fun hor => hor.resolve_left hempty⟩

theorem process_fst {data extra : Fields} (hne : hooks ≠ []) (k : Text) :
    (process hooks data extra).1.get? k =
      ((data.update extra).get? k).map (processed hooks) := by
  rw [process, if_neg (by simpa using hne)]
  show ((((data.update extra).mapValues _).mapValues _).get? k) = _
  rw [OrderedDict.get?_mapValues, OrderedDict.get?_mapValues, Option.map_map]
  congr 1
  funext value
  rw [Function.comp_apply, processed]
  by_cases hempty : value.isEmpty = true
  · rw [if_pos hempty, if_pos hempty]
  · rw [if_neg hempty, if_neg hempty, scanField_fst]

theorem process_snd_eq_nil {data extra : Fields} (hne : hooks ≠ []) :
    (process hooks data extra).2 = [] ↔
      ∀ k value, (data.update extra).get? k = some value → Undetected hooks value := by
  rw [process, if_neg (by simpa using hne)]
  show List.flatMap _ _ = [] ↔ _
  rw [List.flatMap_eq_nil_iff]
  constructor
  · intro h k value hvalue
    have hmem := OrderedDict.mem_mapValues (f := fun name value =>
      if value.isEmpty then (value, []) else scanField name hooks value)
      (x := (k, if value.isEmpty then (value, []) else scanField k hooks value)) |>.mpr
      ⟨value, OrderedDict.get?_eq_some.mp hvalue, rfl⟩
    have hnil := h _ hmem
    by_cases hempty : value.isEmpty = true
    · rw [show value = [] by simpa using hempty]
      exact undetected_nil
    · simp only [if_neg hempty] at hnil
      exact (scanField_snd_eq_nil (by simpa using hempty)).mp hnil
  · intro h x hx
    obtain ⟨value, hvalue, hx⟩ := OrderedDict.mem_mapValues.mp hx
    rw [hx]
    by_cases hempty : value.isEmpty = true
    · rw [if_pos hempty]
    · rw [if_neg hempty]
      exact (scanField_snd_eq_nil (by simpa using hempty)).mpr
        (h x.1 value (OrderedDict.get?_eq_some.mpr hvalue))

theorem design_all {Q : Text → Text → Prop} :
    (design c).All Q ↔ Q codeField c.code ∧ Q classificationField c.classification ∧
      Q sourceField c.source ∧ ∀ output, c.output = some output → Q outputField output := by
  have hbase : ∀ R : Text → Text → Prop, (((OrderedDict.empty.set codeField c.code).set
      classificationField c.classification).set sourceField c.source : Fields).All R ↔
      R codeField c.code ∧ R classificationField c.classification ∧ R sourceField c.source := by
    intro R
    rw [OrderedDict.all_set, OrderedDict.all_set, OrderedDict.all_set]
    have hempty : ∀ R' : Text → Text → Prop, (OrderedDict.empty : Fields).All R' :=
      fun _ => OrderedDict.all_empty
    have h1 : classificationField ≠ sourceField := by decide
    have h2 : codeField ≠ classificationField := by decide
    have h3 : codeField ≠ sourceField := by decide
    constructor
    · intro h
      exact ⟨h.2.2.1 h2 h3, h.2.1 h1, h.1⟩
    · intro h
      exact ⟨h.2.2, fun _ => h.2.1, fun _ _ => h.1, hempty _⟩
  rw [design]
  cases c.output with
  | none =>
      rw [hbase]
      constructor
      · intro h
        refine ⟨h.1, h.2.1, h.2.2, ?_⟩
        intro _ hoptional
        cases hoptional
      · intro h
        exact ⟨h.1, h.2.1, h.2.2.1⟩
  | some output =>
      show (OrderedDict.set _ outputField output).All Q ↔ _
      rw [OrderedDict.all_set, hbase]
      constructor
      · intro h
        refine ⟨h.2.1 (by decide), h.2.2.1 (by decide), h.2.2.2 (by decide), ?_⟩
        intro o ho
        cases ho
        exact h.1
      · intro h
        exact ⟨h.2.2.2 output rfl, fun _ => h.1, fun _ => h.2.1, fun _ => h.2.2.1⟩

theorem design_no_task : (design c).get? taskField = none := by
  cases h : (design c).get? taskField with
  | none => rfl
  | some value =>
      have hall : (design c).All fun k _ => k ≠ taskField :=
        design_all.mpr ⟨by decide, by decide, by decide, fun _ _ => by decide⟩
      exact absurd rfl (hall.get? h)

theorem redactedDesign_get? (hhooks : svc.redaction = some hooks) (hne : hooks ≠ []) (k : Text) :
    (redactedDesign svc c).1.get? k = ((design c).get? k).map (processed hooks) := by
  have hprocess := fun k =>
    @process_fst hooks (design c) (OrderedDict.empty.set taskField c.task) hne k
  rw [OrderedDict.update_singleton] at hprocess
  rw [redactedDesign, hhooks]
  show (if (process hooks (design c) _).2.isEmpty then _ else _ : Fields × Bool).1.get? k = _
  by_cases hfound : (process hooks (design c) (OrderedDict.empty.set taskField c.task)).2 = []
  · rw [if_pos (by rw [hfound]; rfl)]
    rw [process_snd_eq_nil hne, OrderedDict.update_singleton] at hfound
    cases hvalue : (design c).get? k with
    | none => rfl
    | some value =>
        have hk : k ≠ taskField := by
          intro hk
          rw [hk, design_no_task] at hvalue
          cases hvalue
        have hclean := hfound k value (by rw [OrderedDict.get?_set, if_neg hk, hvalue])
        rw [Option.map_some, processed_of_undetected hclean]
  · rw [if_neg (by simpa using hfound)]
    show ((process hooks (design c) _).1.discard _).get? k = _
    rw [OrderedDict.get?_discard]
    by_cases hk : k = taskField
    · rw [if_pos (decide_eq_true hk), hk, design_no_task]
      rfl
    · rw [if_neg (by simpa using hk), hprocess, OrderedDict.get?_set, if_neg hk]

theorem redactedDesign_all (hhooks : svc.redaction = some hooks) (hne : hooks ≠ [])
    {Q : Text → Text → Prop} :
    (redactedDesign svc c).1.All Q ↔ (design c).All fun k value => Q k (processed hooks value) := by
  rw [OrderedDict.all_iff_get?, OrderedDict.all_iff_get?]
  constructor
  · intro h k value hvalue
    exact h k _ (by rw [redactedDesign_get? hhooks hne, hvalue, Option.map_some])
  · intro h k value hvalue
    rw [redactedDesign_get? hhooks hne, Option.map_eq_some_iff] at hvalue
    obtain ⟨given, hgiven, rfl⟩ := hvalue
    exact h k given hgiven

end Fields

section Law
variable {key : Text}

theorem texts_all {r : Record} {P : Text → Prop} :
    (∀ text ∈ r.texts key, P text) ↔ P key ∧ (∀ task, r.task = some task → P task) ∧
      (∀ author, r.authorKeyId = some author → P author) ∧ r.design.All fun _ => P := by
  have hmap : (∀ text ∈ r.design.entries.map Prod.snd, P text) ↔ r.design.All fun _ => P :=
    List.forall_mem_map
  rw [Record.texts, List.forall_mem_cons, List.forall_mem_append, List.forall_mem_append, hmap]
  simp only [Option.mem_toList, and_assoc]

theorem storedRecord_design (hhooks : svc.redaction = some hooks) (hne : hooks ≠ [])
    (hremoves : ∀ hook ∈ hooks, hook.Removes) (index : Index F) :
    ((storedRecord svc env c index).design.All fun _ => Undetected hooks) ↔
      Redactable hooks c.code ∧ (∀ output, c.output = some output → Redactable hooks output) ∧
      if embedError svc env c index = none ∧ mirrors svc env then
        Undetected hooks c.classification ∧ Undetected hooks c.source
      else Redactable hooks c.classification ∧ Redactable hooks c.source := by
  rw [storedRecord]
  by_cases hmirror : embedError svc env c index = none ∧ mirrors svc env = true
  · rw [if_pos hmirror, if_pos hmirror]
    show OrderedDict.All _ (((redactedDesign svc c).1.set classificationField
      c.classification).set sourceField c.source) ↔ _
    rw [OrderedDict.all_set, OrderedDict.all_set, redactedDesign_all hhooks hne, design_all]
    simp only [undetected_processed_iff hremoves]
    have h1 : classificationField ≠ sourceField := by decide
    have h2 : codeField ≠ sourceField := by decide
    have h3 : codeField ≠ classificationField := by decide
    have h4 : outputField ≠ sourceField := by decide
    have h5 : outputField ≠ classificationField := by decide
    constructor
    · intro h
      exact ⟨h.2.2.1 h3 h2, fun o ho => h.2.2.2.2.2 o ho h5 h4, h.2.1 h1, h.1⟩
    · intro h
      exact ⟨h.2.2.2, fun _ => h.2.2.1, fun _ _ => h.1, fun hcls => absurd rfl hcls,
        fun _ hsrc => absurd rfl hsrc, fun o ho _ _ => h.2.1 o ho⟩
  · rw [if_neg hmirror, if_neg hmirror]
    show OrderedDict.All _ (redactedDesign svc c).1 ↔ _
    rw [redactedDesign_all hhooks hne, design_all]
    simp only [undetected_processed_iff hremoves]
    constructor
    · intro h
      exact ⟨h.1, h.2.2.2, h.2.1, h.2.2.1⟩
    · intro h
      exact ⟨h.1, h.2.2.1, h.2.2.2, h.2.1⟩

theorem storedRecord_author (index : Index F) :
    (storedRecord svc env c index).authorKeyId = c.author.filter fun author => !author.isEmpty := by
  obtain ⟨design, h⟩ := @storedRecord_eq F svc env c index
  rw [h]
  rfl

theorem undetected_author :
    (∀ author, (c.author.filter fun author => !author.isEmpty) = some author →
      Undetected hooks author) ↔ ∀ author, c.author = some author → Undetected hooks author := by
  constructor
  · intro h author hauthor
    by_cases hempty : author = []
    · rw [hempty]
      exact undetected_nil
    · exact h author (Option.filter_eq_some_iff.mpr ⟨hauthor, by simpa using hempty⟩)
  · intro h author hauthor
    exact h author (Option.filter_eq_some_iff.mp hauthor).1

theorem storedRecord_clean_iff (hhooks : svc.redaction = some hooks) (hne : hooks ≠ [])
    (hremoves : ∀ hook ∈ hooks, hook.Removes) (index : Index F) :
    (∀ text ∈ (storedRecord svc env c index).texts key, Undetected hooks text) ↔
      RedactionSuffices hooks svc env c index key := by
  rw [texts_all, storedRecord_design hhooks hne hremoves, (storedRecord_fields index).1,
    storedRecord_author, undetected_author]
  constructor
  · intro h
    exact ⟨h.1, h.2.1 c.task rfl, h.2.2.1, h.2.2.2.1, h.2.2.2.2.1, h.2.2.2.2.2⟩
  · intro h
    refine ⟨h.key, ?_, h.author, h.code, h.output, h.labels⟩
    intro task htask
    rw [← Option.some.inj htask]
    exact h.task

/-- What a call persists is redacted exactly when redaction suffices for every text of
a record it gets to write. -/
theorem persists_redacted_iff (hooks : List RedactionHook) (svc : LearningService) (env : Env F)
    (c : LearnCall) (st : PatternStore F) (hhooks : svc.redaction = some hooks)
    (hne : hooks ≠ []) (hremoves : ∀ hook ∈ hooks, hook.Removes) :
    PersistsRedacted hooks svc env c st ↔
      ∀ key, writtenKey svc env c st.patterns = some key →
        RedactionSuffices hooks svc env c st.embeddings key := by
  constructor
  · intro h key hkey
    rw [← storedRecord_clean_iff hhooks hne hremoves]
    apply h.pattern key _ hkey
    rw [(learn_of_some hkey).patterns, if_pos rfl]
  · intro h
    constructor
    · intro key r hkey hr
      rw [(learn_of_some hkey).patterns, if_pos rfl] at hr
      cases hr
      exact (storedRecord_clean_iff hhooks hne hremoves st.embeddings).mpr (h key hkey)
    · intro e he hnew
      cases hkey : writtenKey svc env c st.patterns with
      | none =>
          rw [(learn_of_not_written hkey).unchanged] at he
          exact absurd he hnew
      | some key =>
          have hsuffices := h key hkey
          have heval : e = evalRecord env c key := by
            cases (learn_of_some hkey).evals with
            | inl hold =>
                rw [hold] at he
                exact absurd he hnew
            | inr happended =>
                rw [happended] at he
                cases List.mem_append.mp (List.mem_of_mem_drop he) with
                | inl hold => exact absurd hold hnew
                | inr hlast => exact List.mem_singleton.mp hlast
          intro text htext
          rw [heval, EvalRecord.texts, List.mem_cons, List.mem_cons, List.mem_singleton] at htext
          cases htext with
          | inl hname => rw [hname]; exact hsuffices.key
          | inr hrest =>
              cases hrest with
              | inl htask => rw [htask]; exact hsuffices.task
              | inr hfeedback => rw [hfeedback]; exact undetected_nil

end Law

section Example

/-- Finds addresses by their sign and strikes it out. -/
def addressHook : RedactionHook where
  scan text := if '@' ∈ text then [⟨[], ['a', 't'], text.count '@'⟩] else []
  redact text := text.filter (· ≠ '@')

def redactingService : LearningService := ⟨.json, some [addressHook], asciiText⟩

theorem addressHook_removes : addressHook.Removes := by
  intro text
  simp [RedactionHook.detects, addressHook]

/-- An address in the code is struck out everywhere. -/
theorem persists_redacted_code :
    PersistsRedacted [addressHook] redactingService outageEnv
      { sortCall with code := "mail('bob@example.com')".toList } emptyPatternStore := by
  apply (persists_redacted_iff [addressHook] redactingService outageEnv
    { sortCall with code := "mail('bob@example.com')".toList } emptyPatternStore rfl
    (List.cons_ne_nil _ _) (List.forall_mem_singleton.mpr addressHook_removes)).mpr
  intro key hkey
  have hkey' : key = patternKey "a1".toList := by
    have hsome : writtenKey redactingService outageEnv
        { sortCall with code := "mail('bob@example.com')".toList }
        (emptyPatternStore : PatternStore Nat).patterns = some (patternKey "a1".toList) := by decide
    exact Option.some.inj (hkey.symm.trans hsome)
  have hredactable : ∀ text, Redactable [addressHook] text := by
    intro text
    refine .inr (undisturbed_of_independent ?_ text)
    intro hook hhook other hother text _
    rw [List.mem_singleton.mp hhook, List.mem_singleton.mp hother]
    exact addressHook_removes text
  refine ⟨by rw [hkey']; decide, by decide, ?_, hredactable _, fun _ _ => hredactable _, ?_⟩
  · intro author hauthor
    cases hauthor
  · exact ⟨hredactable _, hredactable _⟩

/-- An address in the task is stored as it is. -/
theorem task_not_redacted :
    redactingService.redaction = some [addressHook] ∧ addressHook.Removes ∧
    ¬ PersistsRedacted [addressHook] redactingService outageEnv
      { sortCall with task := "mail bob@example.com".toList } emptyPatternStore := by
  refine ⟨rfl, addressHook_removes, ?_⟩
  intro h
  have hkey : writtenKey redactingService outageEnv
      { sortCall with task := "mail bob@example.com".toList }
      (emptyPatternStore : PatternStore Nat).patterns = some (patternKey "a1".toList) := by decide
  have hclean := h.pattern _ _ hkey ((learn_of_some hkey).patterns _)
  rw [texts_all, (storedRecord_fields _).1] at hclean
  exact absurd (hclean.2.1 _ rfl) (by decide)

end Example

end Engramia.Patterns
