import Engramia.Library.Run
import Engramia.Patterns.Learning
import Engramia.Storage.MemoryRows
import Mathlib.Algebra.Order.Ring.Unbundled.Rat
import Mathlib.Data.Char
import Mathlib.Data.List.Lex

/-!
The classification of a pattern over Postgres is kept twice: in a column of its row, which an
export filters on, and in the design of its document, which the readers of a record see. The
operations of a project write the documents with one statement and both copies with another.

The rows are those under `patterns/` of one project, and the operations come one after
another. Numbers are rationals.
-/
namespace Engramia.Patterns
open Engramia.Library Engramia.Storage

attribute [local instance] text_lawfulBEq

def successScoreField : Text := "success_score".toList
def reuseCountField : Text := "reuse_count".toList
def timestampField : Text := "timestamp".toList
def authorKeyIdField : Text := "_author_key_id".toList

/-- What the operations take from elsewhere: the order in which the database sorts keys,
whether `float` of a text is at least a score (`none` where it raises), the numbers that the
model of a pattern takes from a value, and the decay and rounding of a score. -/
structure PatternMath where
  collation : Text → Text → Bool
  textAtLeast : Text → ℚ → Option Bool
  float : Json Text → Option ℚ
  int : Json Text → Option ℤ
  decayed : ℚ → ℚ → ℚ
  round : ℚ → ℚ

/-- `Pattern`, as it is read from a document. -/
structure PatternDoc where
  task : Text
  design : List (Text × Json Text)
  successScore : ℚ
  reuseCount : ℤ
  timestamp : ℚ

def truthy : Json Text → Bool
  | .null => false
  | .bool b => b
  | .int n => n ≠ 0
  | .num q => q ≠ 0
  | .str s => !s.isEmpty
  | .arr items => !items.isEmpty
  | .obj fields => !fields.isEmpty

/-- The classification that a document records in its design. -/
def recorded (data : Json Text) : Option Text :=
  ((data.get? designField).bind (Json.get? classificationLabel)).bind Json.text?

def RowAgrees (r : MemoryRow) : Prop := recorded r.data = some r.classification

def Agreement (rows : MemoryRows) : Prop := ∀ r ∈ rows.rows, RowAgrees r

/-- A document with an object for its design. -/
def HasDesign (data : Json Text) : Prop :=
  ∃ design, data.get? designField = some (.obj design)

section Documents
variable (N : PatternMath)

/-- A field of a document, or its default. -/
def readOr {α : Type} (read : Json Text → Option α) (default : α) (value : Option (Json Text)) :
    Option α :=
  value.elim (some default) read

/-- `Pattern.model_validate`; `none` where it raises. -/
def validate (now : ℚ) (data : Json Text) : Option PatternDoc := do
  let design ← (data.get? designField).bind Json.fields?
  let task ← (data.get? taskField).bind Json.text?
  let successScore ← readOr N.float 1 (data.get? successScoreField)
  let reuseCount ← readOr N.int 0 (data.get? reuseCountField)
  let timestamp ← readOr N.float now (data.get? timestampField)
  if 0 ≤ successScore ∧ successScore ≤ 10 ∧ 0 ≤ reuseCount then
    some ⟨task, design, successScore, reuseCount, timestamp⟩
  else none

/-- `model_dump` -/
def PatternDoc.dump (p : PatternDoc) : List (Text × Json Text) :=
  [(taskField, .str p.task), (designField, .obj p.design), (successScoreField, .num p.successScore),
    (reuseCountField, .int p.reuseCount), (timestampField, .num p.timestamp)]

/-- The internal fields of a document that a dump lacks. -/
def internals (dump : List (Text × Json Text)) (data : Json Text) : List (Text × Json Text) :=
  (data.fields?.getD []).filter fun x =>
    x.1.head? = some '_' && !dump.any fun y => y.1 = x.1

/-- The document of a pattern that was read from `data` and changed. -/
def rewritten (p : PatternDoc) (data : Json Text) : Json Text :=
  .obj (p.dump ++ internals p.dump data)

end Documents

section Learn
variable (svc : LearningService) (N : PatternMath)

/-- What a call of `learn` meets: the clock, the random part of a new key, and whether it
comes to its first write, and from there to the governance columns and updates them. -/
structure LearnRun where
  now : ℚ
  stamp : Text
  saves : Bool
  mirrors : Bool

def isDuplicateRow (task : Text) (r : MemoryRow) : Bool :=
  match (r.data.get? taskField).bind Json.text? with
  | some existingTask => decide (Duplicate svc.text existingTask task)
  | none => false

def findDuplicateRow (task : Text) (rows : MemoryRows) : Option MemoryRow :=
  ((rowKeys rows N.collation).filterMap rows.row?).find? (isDuplicateRow svc task)

/-- Whether the stored score is at least the new one; `none` where it is no number. -/
def storedAtLeast (score : ℚ) (stored : Option (Json Text)) : Option Bool :=
  match stored.filter truthy with
  | none => some (score ≤ 0)
  | some (.bool _) => some (score ≤ 1)
  | some (.int n) => some (score ≤ n)
  | some (.num q) => some (score ≤ q)
  | some (.str s) => N.textAtLeast s score
  | some _ => none

/-- The key that a call of `learn` writes its record under. -/
def learnedKey (run : LearnRun) (c : LearnCall) (rows : MemoryRows) : Option Text :=
  if ¬ (0 ≤ c.evalScore ∧ c.evalScore ≤ 10) ∨ maxPatternCount ≤ rows.rows.length ∨
      run.saves = false then none
  else
    match if c.onDuplicate = .keepBoth then none else findDuplicateRow svc N c.task rows with
    | none => some (patternKey run.stamp)
    | some r =>
        if c.onDuplicate = .skip then none
        else if storedAtLeast N c.evalScore (r.data.get? successScoreField) = some false then
          some r.key
        else none

def designJson (design : Fields) : Json Text :=
  .obj (design.entries.map fun x => (x.1, .str x.2))

def learnedDoc (run : LearnRun) (c : LearnCall) : Json Text :=
  .obj ([(taskField, .str c.task), (designField, designJson (redactedDesign svc c).1),
    (successScoreField, .num c.evalScore), (reuseCountField, .int 0),
    (timestampField, .num run.now)] ++
    ((c.author.filter fun author => !author.isEmpty).map fun author =>
      (authorKeyIdField, Json.str author)).toList)

def learnedMeta (c : LearnCall) : PatternMeta where
  classification := some c.classification
  source := some c.source
  runId := c.runId
  author := c.author
  redacted := some (redactedDesign svc c).2

/-- `learn`, on the rows. -/
def learnRow (run : LearnRun) (c : LearnCall) (rows : MemoryRows) : MemoryRows :=
  match learnedKey svc N run c rows with
  | none => rows
  | some key =>
      let stored := saveRow rows key (learnedDoc svc run c)
      if run.mirrors then savePatternMetaRow stored key (learnedMeta svc c) else stored

end Learn

section Import

/-- A record of an export, with the fields that it has. -/
structure ImportRecord where
  version : Option (Json Text)
  key : Option (Json Text)
  data : Option (Json Text)

/-- Python's booleans are integers. -/
def importVersion (r : ImportRecord) : Option ℤ :=
  match r.version with
  | none => some 1
  | some (.bool b) => some b.toNat
  | some (.int n) => some n
  | some _ => none

/-- Whether a record is passed over before its key is read as a text. -/
def ImportRecord.skipped (r : ImportRecord) : Bool :=
  (importVersion r).all (fun version => decide (1 < version)) ||
    !(r.key.any truthy && r.data.any fun data => data.fields?.isSome)

/-- A key that is no text has no `startswith`. -/
def ImportRecord.raises (r : ImportRecord) : Bool :=
  !r.skipped && (r.key.bind Json.text?).isNone

/-- The document that a record brings, under an accepted key. -/
def ImportRecord.document? (r : ImportRecord) : Option (Text × Json Text) :=
  if r.skipped then none
  else
    match r.key.bind Json.text?, r.data with
    | some key, some data => if AcceptedKey key then some (key, data) else none
    | _, _ => none

/-- The documents that an import comes to. -/
def importable (records : List ImportRecord) : List (Text × Json Text) :=
  (records.takeWhile fun r => !r.raises).filterMap ImportRecord.document?

def importDocuments (overwrite : Bool) : List (Text × Json Text) → MemoryRows → MemoryRows
  | [], rows => rows
  | x :: documents, rows =>
      importDocuments overwrite documents
        (if !overwrite && (rows.row? x.1).isSome then rows else saveRow rows x.1 x.2)

/-- `import_data`. Of an import that a storage call cuts short, `records` are those before. -/
def importData (records : List ImportRecord) (overwrite : Bool) (rows : MemoryRows) :
    MemoryRows :=
  importDocuments overwrite (importable records) rows

/-- The document that an import leaves under a key: the last one, or the first one where no
row is there and none may be overwritten. -/
def importedDocument (overwrite : Bool) (documents : List (Text × Json Text))
    (rows : MemoryRows) (key : Text) : Option (Json Text) :=
  if overwrite then documents.reverse.lookup key
  else if (rows.row? key).isSome then none
  else documents.lookup key

end Import

section Operations
variable (svc : LearningService) (N : PatternMath)

def validClassifications : List Text :=
  ["public".toList, "internal".toList, "confidential".toList]

/-- `classify_pattern`, where the update runs. -/
def classifyRow (key label : Text) (rows : MemoryRows) : MemoryRows :=
  if label ∈ validClassifications then savePatternMetaRow rows key { classification := some label }
  else rows

def markReusedRow (now : ℚ) (key : Text) (rows : MemoryRows) : MemoryRows :=
  match rows.row? key with
  | none => rows
  | some r =>
      match validate N now r.data with
      | none => rows
      | some p =>
          saveRow rows key (rewritten
            { p with
              successScore := min 10 (p.successScore + 1 / 10)
              reuseCount := p.reuseCount + 1 } r.data)

def minScore : ℚ := 1 / 10

def elapsedWeeks (now timestamp : ℚ) : ℚ := max 0 ((now - timestamp) / (7 * 24 * 3600))

/-- The score that a run leaves a pattern, before it is rounded. -/
def decayedAt (now : ℚ) (p : PatternDoc) : ℚ :=
  N.decayed p.successScore (elapsedWeeks now p.timestamp)

/-- A pattern of an aging run, decayed or pruned. -/
def agedRow (now : ℚ) (key : Text) (data : Json Text) (p : PatternDoc) (rows : MemoryRows) :
    MemoryRows :=
  if decayedAt N now p < minScore then deleteRow rows key
  else saveRow rows key (rewritten { p with successScore := N.round (decayedAt N now p) } data)

/-- A document that is no pattern ends the run. -/
def ageRows (now : ℚ) : List Text → MemoryRows → MemoryRows
  | [], rows => rows
  | key :: keys, rows =>
      match rows.row? key with
      | none => ageRows now keys rows
      | some r =>
          match validate N now r.data with
          | none => rows
          | some p => ageRows now keys (agedRow N now key r.data p rows)

inductive PatternOp where
  | learn (run : LearnRun) (c : LearnCall)
  | importData (records : List ImportRecord) (overwrite : Bool)
  | classify (key label : Text) (updates : Bool)
  | markReused (now : ℚ) (key : Text)
  /-- A run that a storage call may cut short after `reached` keys. -/
  | runAging (now : ℚ) (reached : Nat)

def applyOp (rows : MemoryRows) : PatternOp → MemoryRows
  | .learn run c => learnRow svc N run c rows
  | .importData records overwrite => importData records overwrite rows
  | .classify key label updates => if updates then classifyRow key label rows else rows
  | .markReused now key => markReusedRow N now key rows
  | .runAging now reached => ageRows N now ((rowKeys rows N.collation).take reached) rows

/-- A call of `learn` that does not come to the columns, and each document that an import
leaves, records in its design the label of the row it is written to. -/
def RecordsLabel (rows : MemoryRows) : PatternOp → Prop
  | .learn run c =>
      run.mirrors = false → ∀ key, learnedKey svc N run c rows = some key →
        (redactedDesign svc c).1.get? classificationField = some (MemoryRow.label (rows.row? key))
  | .importData records overwrite =>
      ∀ key data, importedDocument overwrite (importable records) rows key = some data →
        recorded data = some (MemoryRow.label (rows.row? key))
  | .classify _ _ _ => True
  | .markReused _ _ => True
  | .runAging _ _ => True

end Operations

section Labels
variable {rows : MemoryRows} {r : MemoryRow} {key k label : Text} {data data' : Json Text}
  {m : PatternMeta}

theorem recorded_of_design {design : List (Text × Json Text)}
    (h : data.get? designField = some (.obj design)) :
    recorded data = ((Json.obj design).get? classificationLabel).bind Json.text? := by
  rw [recorded, h]
  rfl

theorem hasDesign_of_recorded (h : recorded data = some label) : HasDesign data := by
  rw [recorded] at h
  cases hdesign : data.get? designField with
  | none =>
      rw [hdesign] at h
      cases h
  | some value =>
      rw [hdesign] at h
      cases value with
      | obj design => exact ⟨design, hdesign⟩
      | _ => cases h

theorem jsonbSet_design {name value : Text} (h : HasDesign data) :
    ∃ data', jsonbSet [designField, name] value data = some data' ∧ HasDesign data' ∧
      recorded data' = if classificationLabel = name then some value else recorded data := by
  obtain ⟨design, hdesign⟩ := h
  obtain ⟨outer, hset, hafter, _⟩ := Json.setPath_pair name (.str value) hdesign
  refine ⟨.obj outer, ?_, ⟨_, hafter⟩, ?_⟩
  · cases data with
    | obj fields => exact hset
    | _ => cases hdesign
  · rw [recorded_of_design hafter, recorded_of_design hdesign, Json.get?_assign]
    by_cases hname : classificationLabel = name
    · rw [if_pos hname, if_pos hname]
      rfl
    · rw [if_neg hname, if_neg hname]

theorem recorded_mirrored (h : HasDesign data) (hlabel : m.classification = some label) :
    ∃ data', m.mirrored data = some data' ∧ recorded data' = some label := by
  obtain ⟨data₁, hset₁, hdesign₁, hrecorded₁⟩ :
      ∃ data₁, jsonbSet [designField, classificationLabel] label data = some data₁ ∧
        HasDesign data₁ ∧ _ := jsonbSet_design h
  rw [if_pos rfl] at hrecorded₁
  cases hsource : m.source with
  | none => exact ⟨data₁, by simp [PatternMeta.mirrored, hlabel, hset₁, hsource], hrecorded₁⟩
  | some source =>
      obtain ⟨data₂, hset₂, _, hrecorded₂⟩ :
          ∃ data₂, jsonbSet [designField, sourceLabel] source data₁ = some data₂ ∧
            HasDesign data₂ ∧ _ := jsonbSet_design hdesign₁
      rw [if_neg (by decide), hrecorded₁] at hrecorded₂
      exact ⟨data₂, by simp [PatternMeta.mirrored, hlabel, hset₁, hsource, hset₂], hrecorded₂⟩

theorem agreement_iff : Agreement rows ↔ ∀ k r, rows.row? k = some r → RowAgrees r := by
  constructor
  · intro h k r hr
    exact h r (Table.row?_eq_some.mp hr).1
  · intro h r hr
    exact h r.key r (Table.row?_eq_some.mpr ⟨hr, rfl⟩)

theorem agreement_saveRow (h : Agreement rows) :
    Agreement (saveRow rows key data) ↔ recorded data = some (MemoryRow.label (rows.row? key)) := by
  have hrow : RowAgrees (MemoryRow.saved (rows.row? key) key data) ↔
      recorded data = some (MemoryRow.label (rows.row? key)) := by
    rw [RowAgrees, MemoryRow.data_saved, MemoryRow.classification_saved]
  rw [agreement_iff] at h
  rw [agreement_iff, ← hrow]
  constructor
  · intro hall
    apply hall key
    rw [row?_saveRow, if_pos rfl]
  · intro hnew k r hr
    rw [row?_saveRow] at hr
    by_cases hk : k = key
    · rw [if_pos hk] at hr
      cases hr
      exact hnew
    · rw [if_neg hk] at hr
      exact h k r hr

theorem agreement_savePatternMetaRow (hlabel : m.classification = some label)
    (hdesign : ∀ r, rows.row? key = some r → HasDesign r.data)
    (hothers : ∀ k r, k ≠ key → rows.row? k = some r → RowAgrees r) :
    Agreement (savePatternMetaRow rows key m) := by
  rw [agreement_iff]
  intro k r hr
  rw [row?_savePatternMetaRow] at hr
  by_cases hk : k = key
  · rw [if_pos hk] at hr
    cases hrow : rows.row? key with
    | none =>
        rw [hrow] at hr
        cases hr
    | some r₀ =>
        obtain ⟨data', hmirrored, hrecorded⟩ := recorded_mirrored (hdesign r₀ hrow) hlabel
        have hempty : m.isEmpty = false := by simp [PatternMeta.isEmpty, hlabel]
        rw [hrow, Option.map_some, hempty, hmirrored] at hr
        cases hr
        rw [RowAgrees]
        simp [PatternMeta.applied, hrecorded, hlabel]
  · rw [if_neg hk] at hr
    exact hothers k r hk hr

end Labels

section Rewrites
variable {N : PatternMath} {rows : MemoryRows} {r : MemoryRow} {key : Text} {data : Json Text}
  {p p' : PatternDoc} {now : ℚ}

theorem validate_design (h : validate N now data = some p) :
    data.get? designField = some (.obj p.design) := by
  rw [validate, Option.bind_eq_bind, Option.bind_eq_some_iff] at h
  obtain ⟨design, hdesign, h⟩ := h
  simp only [Option.bind_eq_bind, Option.bind_eq_some_iff] at h
  obtain ⟨task, _, score, _, count, _, timestamp, _, h⟩ := h
  rw [Option.bind_eq_some_iff] at hdesign
  obtain ⟨value, hvalue, hfields⟩ := hdesign
  by_cases hbounds : 0 ≤ score ∧ score ≤ 10 ∧ 0 ≤ count
  · rw [if_pos hbounds] at h
    cases h
    cases value with
    | obj fields =>
        cases hfields
        exact hvalue
    | _ => cases hfields
  · rw [if_neg hbounds] at h
    cases h

theorem recorded_rewritten (h : validate N now data = some p) (hdesign : p'.design = p.design) :
    recorded (rewritten p' data) = recorded data := by
  have hafter : (rewritten p' data).get? designField = some (.obj p.design) := by
    rw [← hdesign]
    rfl
  rw [recorded_of_design hafter, recorded_of_design (validate_design h)]

theorem agreement_rewrite (hrows : Agreement rows) (hr : rows.row? key = some r)
    (h : validate N now r.data = some p) (hdesign : p'.design = p.design) :
    Agreement (saveRow rows key (rewritten p' r.data)) := by
  rw [agreement_saveRow hrows, recorded_rewritten h hdesign, hr]
  exact agreement_iff.mp hrows key r hr

theorem agreement_deleteRow (hrows : Agreement rows) : Agreement (deleteRow rows key) := by
  intro r hr
  exact hrows r (List.mem_of_mem_filter hr)

theorem agreement_markReused (hrows : Agreement rows) :
    Agreement (markReusedRow N now key rows) := by
  rw [markReusedRow]
  cases hrow : rows.row? key with
  | none => exact hrows
  | some r =>
      dsimp only
      cases hpattern : validate N now r.data with
      | none => exact hrows
      | some p => exact agreement_rewrite hrows hrow hpattern rfl

theorem agreement_agedRow (hrows : Agreement rows) (hr : rows.row? key = some r)
    (h : validate N now r.data = some p) : Agreement (agedRow N now key r.data p rows) := by
  rw [agedRow]
  split
  · exact agreement_deleteRow hrows
  · exact agreement_rewrite hrows hr h rfl

theorem agreement_ageRows (keys : List Text) (hrows : Agreement rows) :
    Agreement (ageRows N now keys rows) := by
  induction keys generalizing rows with
  | nil => exact hrows
  | cons key keys ih =>
      rw [ageRows]
      cases hrow : rows.row? key with
      | none => exact ih hrows
      | some r =>
          dsimp only
          cases hpattern : validate N now r.data with
          | none => exact hrows
          | some p => exact ih (agreement_agedRow hrows hrow hpattern)

end Rewrites

section Writes
variable {svc : LearningService} {N : PatternMath} {rows : MemoryRows} {key label : Text}
  {run : LearnRun} {c : LearnCall}

theorem agreement_classifyRow (hrows : Agreement rows) :
    Agreement (classifyRow key label rows) := by
  have hagrees := agreement_iff.mp hrows
  rw [classifyRow]
  split
  · apply agreement_savePatternMetaRow rfl
    · intro r hr
      exact hasDesign_of_recorded (hagrees key r hr)
    · intro k r _ hr
      exact hagrees k r hr
  · exact hrows

theorem get?_designJson (design : Fields) (k : Text) :
    (designJson design).get? k = (design.get? k).map Json.str :=
  Json.get?_mapped Json.str design.entries k

theorem learnedDoc_design : (learnedDoc svc run c).get? designField =
    some (designJson (redactedDesign svc c).1) := rfl

theorem recorded_learnedDoc : recorded (learnedDoc svc run c) =
    (redactedDesign svc c).1.get? classificationField := by
  have hname : classificationLabel = classificationField := rfl
  rw [recorded, learnedDoc_design, Option.bind_some, get?_designJson, hname]
  cases (redactedDesign svc c).1.get? classificationField with
  | none => rfl
  | some value => rfl

/-- A record whose columns are updated agrees; one whose columns are not has to record the
label of its row itself. -/
theorem agreement_learnRow (hrows : Agreement rows) :
    Agreement (learnRow svc N run c rows) ↔
      (run.mirrors = false → ∀ key, learnedKey svc N run c rows = some key →
        (redactedDesign svc c).1.get? classificationField =
          some (MemoryRow.label (rows.row? key))) := by
  rw [learnRow]
  cases hkey : learnedKey svc N run c rows with
  | none =>
      apply iff_of_true hrows
      intro _ key hnone
      cases hnone
  | some key =>
      dsimp only
      by_cases hmirrors : run.mirrors = true
      · have hagrees := agreement_iff.mp hrows
        apply iff_of_true
        · rw [if_pos hmirrors]
          apply agreement_savePatternMetaRow rfl
          · intro r hr
            rw [row?_saveRow, if_pos rfl] at hr
            cases hr
            rw [MemoryRow.data_saved]
            exact ⟨_, learnedDoc_design⟩
          · intro k r hk hr
            rw [row?_saveRow, if_neg hk] at hr
            exact hagrees k r hr
        · intro hfalse
          rw [hmirrors] at hfalse
          cases hfalse
      · rw [if_neg hmirrors, agreement_saveRow hrows, recorded_learnedDoc]
        constructor
        · intro h _ key' hkey'
          cases hkey'
          exact h
        · intro h
          exact h (Bool.eq_false_iff.mpr hmirrors) key rfl

end Writes

section Imports
variable {rows : MemoryRows} {overwrite : Bool} {documents : List (Text × Json Text)}
  {records : List ImportRecord} {key k : Text} {data : Json Text}

/-- The row under a key, where the document of the import replaces the data. -/
def rowWith (rows : MemoryRows) (k : Text) (document : Option (Json Text)) : Option MemoryRow :=
  document.elim (rows.row? k) fun data => some (MemoryRow.saved (rows.row? k) k data)

theorem rowWith_saveRow (document : Option (Json Text)) :
    rowWith (saveRow rows key data) k document =
      rowWith rows k (document.or (if k = key then some data else none)) := by
  cases document with
  | none =>
      rw [Option.none_or]
      by_cases hk : k = key
      · rw [if_pos hk, hk]
        exact row?_saveRow.trans (if_pos rfl)
      · rw [if_neg hk]
        exact row?_saveRow.trans (if_neg hk)
  | some data' =>
      rw [Option.some_or, rowWith, rowWith, Option.elim_some, Option.elim_some, row?_saveRow]
      by_cases hk : k = key
      · rw [if_pos hk, hk, MemoryRow.saved_saved]
      · rw [if_neg hk]

theorem row?_importDocuments_overwrite (k : Text) :
    (importDocuments true documents rows).row? k = rowWith rows k (documents.reverse.lookup k) := by
  induction documents generalizing rows with
  | nil => rfl
  | cons x documents ih =>
      rw [importDocuments, Bool.not_true, Bool.false_and, if_neg Bool.false_ne_true, ih,
        rowWith_saveRow, List.reverse_cons, List.lookup_append, lookup_cons_ite]
      rfl

theorem row?_importDocuments_keep (k : Text) :
    (importDocuments false documents rows).row? k =
      rowWith rows k (if (rows.row? k).isSome then none else documents.lookup k) := by
  induction documents generalizing rows with
  | nil =>
      rw [List.lookup_nil, ite_self]
      rfl
  | cons x documents ih =>
      rw [importDocuments, Bool.not_false, Bool.true_and, lookup_cons_ite]
      by_cases hpresent : (rows.row? x.1).isSome = true
      · rw [if_pos hpresent, ih]
        by_cases hk : k = x.1
        · rw [hk, if_pos hpresent, if_pos hpresent]
        · rw [if_neg hk]
      · rw [if_neg hpresent, ih, rowWith_saveRow, row?_saveRow]
        by_cases hk : k = x.1
        · rw [if_pos hk, if_pos hk, if_pos hk, hk, if_neg hpresent]
          rfl
        · rw [if_neg hk, if_neg hk, if_neg hk, Option.or_none]

theorem row?_importDocuments : (importDocuments overwrite documents rows).row? k =
    rowWith rows k (importedDocument overwrite documents rows k) := by
  cases overwrite with
  | true => exact row?_importDocuments_overwrite k
  | false => exact row?_importDocuments_keep k

theorem agreement_importData (hrows : Agreement rows) :
    Agreement (importData records overwrite rows) ↔
      ∀ key data, importedDocument overwrite (importable records) rows key = some data →
        recorded data = some (MemoryRow.label (rows.row? key)) := by
  have hagrees := agreement_iff.mp hrows
  rw [importData, agreement_iff]
  constructor
  · intro h key data hdocument
    have hrow := h key (MemoryRow.saved (rows.row? key) key data)
      (by rw [row?_importDocuments, hdocument]; rfl)
    rw [RowAgrees, MemoryRow.data_saved, MemoryRow.classification_saved] at hrow
    exact hrow
  · intro h key r hr
    rw [row?_importDocuments] at hr
    cases hdocument : importedDocument overwrite (importable records) rows key with
    | none =>
        rw [hdocument] at hr
        exact hagrees key r hr
    | some data =>
        rw [hdocument] at hr
        cases hr
        rw [RowAgrees, MemoryRow.data_saved, MemoryRow.classification_saved]
        exact h key data hdocument

end Imports

theorem agreement_applyOp (svc : LearningService) (N : PatternMath) (rows : MemoryRows)
    (op : PatternOp) (hrows : Agreement rows) :
    Agreement (applyOp svc N rows op) ↔ RecordsLabel svc N rows op := by
  cases op with
  | learn run c => exact agreement_learnRow hrows
  | importData records overwrite => exact agreement_importData hrows
  | classify key label updates =>
      apply iff_of_true _ trivial
      cases updates with
      | true => exact agreement_classifyRow hrows
      | false => exact hrows
  | markReused now key => exact iff_of_true (agreement_markReused hrows) trivial
  | runAging now reached => exact iff_of_true (agreement_ageRows _ hrows) trivial

def noRows : MemoryRows := ⟨[], List.nodup_nil⟩

/-- Column and record agree throughout exactly the runs in which every document that is
written without an update of the columns records the label of its row. -/
theorem classification_agreement (svc : LearningService) (N : PatternMath)
    (ops : List PatternOp) :
    Always (applyOp svc N) Agreement noRows ops ↔
      AllSteps (applyOp svc N) (RecordsLabel svc N) noRows ops := by
  apply always_iff_allSteps (agreement_applyOp svc N)
  intro r hr
  cases hr

section Sample

def plainMath : PatternMath where
  collation := fun a b => decide (a ≤ b)
  textAtLeast _ _ := none
  float
    | .int n => some n
    | .num q => some q
    | _ => none
  int
    | .int n => some n
    | _ => none
  decayed score _ := score
  round q := q

/-- A confidential pattern, as an export has it. -/
def exportedRecord : ImportRecord where
  version := some (.int 1)
  key := some (.str (patternKey "a1".toList))
  data := some (.obj [(taskField, .str "sort a list".toList),
    (designField, .obj [(classificationLabel, .str "confidential".toList)])])

/-- The imported pattern is confidential in its record, and its row is labelled internal. -/
theorem imported_confidential_internal :
    ∃ (svc : LearningService) (N : PatternMath) (ops : List PatternOp),
      ¬ Always (applyOp svc N) Agreement noRows ops := by
  refine ⟨plainService, plainMath, [.importData [exportedRecord] false], ?_⟩
  apply not_always_of_last
  intro h
  have hrow := agreement_iff.mp h (patternKey "a1".toList)
    (MemoryRow.saved none (patternKey "a1".toList)
      (.obj [(taskField, .str "sort a list".toList),
        (designField, .obj [(classificationLabel, .str "confidential".toList)])])) rfl
  revert hrow
  rw [RowAgrees]
  decide

end Sample

end Engramia.Patterns
