import Engramia.Library.Json
import Engramia.Library.KeyedTable
import Engramia.Storage.Paths
import Mathlib.Data.List.Sort

/-!
The rows of `memory_data` in one scope, with the two statements that write them: the upsert of
a document, which leaves the governance columns of a row that exists and gives a new row the
defaults, and the update of these columns, which mirrors the labels into the document.
-/
namespace Engramia.Storage
open Engramia.Library

def internalLabel : Text := ['i', 'n', 't', 'e', 'r', 'n', 'a', 'l']

structure MemoryRow where
  key : Text
  data : Json Text
  classification : Text := internalLabel
  source : Option Text := none
  runId : Option Text := none
  author : Option Text := none
  redacted : Bool := false
  expiresAt : Option Text := none

abbrev MemoryRows := Table MemoryRow.key

/-- The keyword arguments of `save_pattern_meta`. -/
structure PatternMeta where
  classification : Option Text := none
  source : Option Text := none
  runId : Option Text := none
  author : Option Text := none
  redacted : Option Bool := none
  expiresAt : Option Text := none

def designField : Text := ['d', 'e', 's', 'i', 'g', 'n']
def classificationLabel : Text :=
  ['c', 'l', 'a', 's', 's', 'i', 'f', 'i', 'c', 'a', 't', 'i', 'o', 'n']
def sourceLabel : Text := ['s', 'o', 'u', 'r', 'c', 'e']

/-- `jsonb_set`, `none` where it raises. -/
def jsonbSet (path : List Text) (value : Text) : Json Text → Option (Json Text)
  | .obj fields => Json.setPath (.str value) path (.obj fields)
  | .arr items => Json.setPath (.str value) path (.arr items)
  | _ => none

namespace PatternMeta

def isEmpty (m : PatternMeta) : Bool :=
  m.classification.isNone && m.source.isNone && m.runId.isNone && m.author.isNone &&
    m.redacted.isNone && m.expiresAt.isNone

/-- The document with the labels that are given. -/
def mirrored (m : PatternMeta) (data : Json Text) : Option (Json Text) :=
  let labelled : Option (Json Text) :=
    match m.classification with
    | none => some data
    | some label => jsonbSet [designField, classificationLabel] label data
  labelled.bind fun data =>
    match m.source with
    | none => some data
    | some label => jsonbSet [designField, sourceLabel] label data

/-- The row after the update. -/
def applied (m : PatternMeta) (data : Json Text) (r : MemoryRow) : MemoryRow where
  key := r.key
  data := data
  classification := m.classification.getD r.classification
  source := m.source <|> r.source
  runId := m.runId <|> r.runId
  author := m.author <|> r.author
  redacted := m.redacted.getD r.redacted
  expiresAt := m.expiresAt <|> r.expiresAt

end PatternMeta

namespace MemoryRow

def withData (data : Json Text) (r : MemoryRow) : MemoryRow := { r with data := data }

@[simp] theorem key_withData {data : Json Text} (r : MemoryRow) : (r.withData data).key = r.key :=
  rfl

/-- The row that an upsert leaves where there was `r?`. -/
def saved (r? : Option MemoryRow) (key : Text) (data : Json Text) : MemoryRow :=
  match r? with
  | none => { key := key, data := data }
  | some r => r.withData data

/-- The label of the row under a key, or the one that a new row gets. -/
def label (r? : Option MemoryRow) : Text :=
  match r? with
  | none => internalLabel
  | some r => r.classification

end MemoryRow

section Statements
variable (rows : MemoryRows)

/-- `PostgresStorage.save` -/
def saveRow (key : Text) (data : Json Text) : MemoryRows :=
  match rows.insert (MemoryRow.saved none key data) with
  | some rows => rows
  | none => rows.update (fun r => r.key = key) (MemoryRow.withData data) MemoryRow.key_withData

/-- `PostgresStorage.delete`, of the documents. -/
def deleteRow (key : Text) : MemoryRows := rows.delete fun r => r.key = key

/-- `PostgresStorage.save_pattern_meta`; an error is logged and dropped. -/
def savePatternMetaRow (key : Text) (m : PatternMeta) : MemoryRows :=
  if m.isEmpty then rows
  else
    match (rows.row? key).bind fun r => m.mirrored r.data with
    | none => rows
    | some data => rows.update (fun r => r.key = key) (m.applied data) fun _ => rfl

/-- `PostgresStorage.list_keys` of the documents, in the order of the database. -/
def rowKeys (collation : Text → Text → Bool) : List Text :=
  (rows.rows.map MemoryRow.key).mergeSort collation

end Statements

section Rows
variable {rows : MemoryRows} {key k : Text} {data data' : Json Text} {m : PatternMeta}

theorem row?_saveRow : (saveRow rows key data).row? k =
    if k = key then some (MemoryRow.saved (rows.row? key) key data) else rows.row? k := by
  rw [saveRow]
  cases hrow : rows.row? key with
  | none =>
      have hinsert := Table.exists_insert (r := MemoryRow.saved none key data) hrow
      cases hinsert with
      | intro rows' hinsert =>
          rw [hinsert]
          apply (Table.row?_insert hinsert k).trans
          rw [show (MemoryRow.saved none key data).key = key from rfl]
          simp only [eq_comm]
  | some r =>
      rw [Table.insert_eq_none (r := MemoryRow.saved none key data) hrow]
      apply (Table.row?_update_key rows MemoryRow.key_withData key k).trans
      rw [hrow]
      rfl

theorem row?_deleteRow : (deleteRow rows key).row? k = if k = key then none else rows.row? k :=
  Table.row?_delete_key rows key k

theorem row?_savePatternMetaRow : (savePatternMetaRow rows key m).row? k =
    if k = key then
      (rows.row? key).map fun r =>
        if m.isEmpty then r else ((m.mirrored r.data).map fun data => m.applied data r).getD r
    else rows.row? k := by
  rw [savePatternMetaRow]
  by_cases hempty : m.isEmpty = true
  · rw [if_pos hempty]
    by_cases hk : k = key
    · simp [hempty, hk]
    · rw [if_neg hk]
  · rw [if_neg hempty]
    cases hrow : rows.row? key with
    | none =>
        by_cases hk : k = key
        · rw [if_pos hk, hk]
          exact hrow
        · rw [if_neg hk]
          rfl
    | some r =>
        cases hdata : m.mirrored r.data with
        | none =>
            by_cases hk : k = key
            · simp [hk, hrow, hdata]
            · simp [hk, hdata]
        | some data =>
            rw [Option.bind_some, hdata]
            apply (Table.row?_update_key rows (f := m.applied data) (fun _ => rfl) key k).trans
            simp [hrow, hdata, hempty]

theorem MemoryRow.saved_saved (r? : Option MemoryRow) :
    MemoryRow.saved (some (MemoryRow.saved r? key data)) key data' =
      MemoryRow.saved r? key data' := by
  cases r? with
  | none => rfl
  | some r => rfl

theorem MemoryRow.classification_saved (r? : Option MemoryRow) :
    (MemoryRow.saved r? key data).classification = MemoryRow.label r? := by
  cases r? with
  | none => rfl
  | some r => rfl

theorem MemoryRow.data_saved (r? : Option MemoryRow) :
    (MemoryRow.saved r? key data).data = data := by
  cases r? with
  | none => rfl
  | some r => rfl

end Rows

end Engramia.Storage
