import Engramia.Storage.KeyMap
import Engramia.Storage.MemoryRows
import Mathlib.Data.List.TakeWhile

/-!
The export of the patterns of a scope, with a filter on their classification. The patterns
come from the storage backend and their labels from columns of the database, which the
exporter reads where it is given an engine and the query is answered.

Nothing is written while the records are streamed.
-/
namespace Engramia.Governance
open Engramia.Library Engramia.Storage

/-- The engine that the exporter is given, and whether the query of the labels is answered. -/
inductive Engine where
  | absent
  | failing
  | answering

structure ExportMeta where
  classification : Text
  redacted : Bool
  source : Option Text
  runId : Option Text

structure ExportRecord where
  version : Nat
  key : Text
  data : Json Text
  labels : Option ExportMeta

/-- The records of a stream, and the error that ends it. -/
structure Streamed where
  records : List ExportRecord
  raised : Option StorageError

/-- The storage backend of a scope; the one over the database reads the rows there. -/
inductive PatternStorage (F : Type) where
  | postgres (collation : Text → Text → Bool)
  | json (isalnum : Char → Bool) (scope : Scope) (store : JsonStore (Json Text) F)

/-- `PATTERNS_PREFIX`, which has no slash. -/
def exportPrefix : Text := patternsPrefix.dropLast

/-- What there is for Python of a document that was found. -/
def notNone : Json Text → Option (Json Text)
  | .null => none
  | data => some data

section Export
variable {F : Type} (rows : MemoryRows) (storage : PatternStorage F) (engine : Engine)
  (filter : Option (List Text)) (key : Text)

def outcomeOf {α : Type} : EStateM.Result StorageError (JsonStore (Json Text) F) α →
    Except StorageError α
  | .ok a _ => .ok a
  | .error e _ => .error e

def PatternStorage.listKeys : Except StorageError (List Text) :=
  match storage with
  | .postgres collation =>
      .ok ((rowKeys rows collation).filter fun key => exportPrefix.isPrefixOf key)
  | .json isalnum scope store => outcomeOf (Storage.listKeys isalnum scope exportPrefix store)

/-- A load that comes after the keys were listed. -/
def PatternStorage.load : Except StorageError (Option (Json Text)) :=
  match storage with
  | .postgres _ => .ok ((rows.row? key).bind fun r => notNone r.data)
  | .json isalnum scope store =>
      (outcomeOf ((do
        let _ ← Storage.listKeys isalnum scope exportPrefix
        Storage.load isalnum scope key) store)).map fun found => found.bind notNone

/-- Whether the query selects a row. An empty filter puts no condition on it. -/
def queried (r : MemoryRow) : Bool :=
  patternsPrefix.isPrefixOf r.key &&
    ((filter.getD []).isEmpty || decide (r.classification ∈ filter.getD []))

def labelsOf (r : MemoryRow) : ExportMeta where
  classification := r.classification
  redacted := r.redacted
  source := r.source.filter fun source => !source.isEmpty
  runId := r.runId.filter fun runId => !runId.isEmpty

/-- `_load_meta_from_db`; an error of the query is logged and leaves nothing. -/
def loadMetaFromDb : Option ExportMeta :=
  match engine with
  | .absent => none
  | .failing => none
  | .answering => ((rows.row? key).filter (queried filter)).map labelsOf

/-- The labels that a key is exported with, or `none` where it is passed over. -/
def passed : Option (Option ExportMeta) :=
  match filter, engine with
  | some _, .failing => (loadMetaFromDb rows engine filter key).map some
  | some _, .answering => (loadMetaFromDb rows engine filter key).map some
  | _, _ => some (loadMetaFromDb rows engine filter key)

def streamKeys : List Text → Streamed
  | [] => ⟨[], none⟩
  | key :: keys =>
      match passed rows engine filter key with
      | none => streamKeys keys
      | some labels =>
          match storage.load rows key with
          | .error e => ⟨[], some e⟩
          | .ok none => streamKeys keys
          | .ok (some data) =>
              let rest := streamKeys keys
              ⟨⟨1, key, data, labels⟩ :: rest.records, rest.raised⟩

/-- `DataExporter.stream` -/
def stream : Streamed :=
  match storage.listKeys rows with
  | .error e => ⟨[], some e⟩
  | .ok keys => streamKeys rows storage engine filter keys

def exportedKeys : List Text :=
  (stream rows storage engine filter).records.map ExportRecord.key

/-- The classification of a pattern, which is the default where the database has no row of it. -/
def labelOf : Text := MemoryRow.label (rows.row? key)

/-- Whether a document is filed under the key. Other keys may lead to its file as well. -/
def PatternStorage.Names : Prop :=
  match storage with
  | .postgres _ => True
  | .json _ _ _ => (keyToPath [] key).map pathToKey = some key

def PatternStorage.Loads : Prop := ∃ data, storage.load rows key = .ok (some data)

def PatternStorage.Holds : Prop :=
  patternsPrefix <+: key ∧ storage.Names key ∧ storage.Loads rows key

/-- Nothing leaks through the filter, and what it asks for comes once. -/
structure FilterKept : Prop where
  admitted : ∀ key ∈ exportedKeys rows storage engine filter, ∀ cs ∈ filter, labelOf rows key ∈ cs
  complete : ∀ key, storage.Holds rows key → (∀ cs ∈ filter, labelOf rows key ∈ cs) →
    (exportedKeys rows storage engine filter).count key = 1

/-- Whether a key is let through. -/
def admits : Bool :=
  match filter, engine with
  | none, _ => true
  | some _, .absent => true
  | some _, .failing => false
  | some _, .answering => (rows.row? key).any (queried filter)

/-- The keys that a stream comes to: one that is let through and does not load ends it. -/
def reached : List Text :=
  match storage.listKeys rows with
  | .error _ => []
  | .ok keys =>
      keys.takeWhile fun key => !admits rows engine filter key || (storage.load rows key).isOk

/-- A stream comes to each of the patterns once. -/
def ReachesOnce (selected : Text → Prop) : Prop :=
  ∀ key, storage.Holds rows key → selected key →
    (reached rows storage engine filter).count key = 1

/-- When the filter is kept: without an engine there must be nothing to keep back, a query that
fails must have nothing to find, and for a filter that is empty the query must find nothing. -/
def Keepable : Prop :=
  match filter, engine with
  | none, _ => ReachesOnce rows storage engine filter fun _ => True
  | some cs, .absent =>
      (∀ key ∈ reached rows storage engine filter, storage.Loads rows key → labelOf rows key ∈ cs) ∧
      ReachesOnce rows storage engine filter fun key => labelOf rows key ∈ cs
  | some cs, .failing => ∀ key, storage.Holds rows key → labelOf rows key ∉ cs
  | some cs, .answering =>
      (cs = [] → ∀ key ∈ reached rows storage engine filter, storage.Loads rows key →
        patternsPrefix <+: key → rows.row? key = none) ∧
      (∀ key, storage.Holds rows key → labelOf rows key ∈ cs → rows.row? key ≠ none) ∧
      ReachesOnce rows storage engine filter fun key => labelOf rows key ∈ cs

end Export

section Streams
variable {F : Type} {rows : MemoryRows} {storage : PatternStorage F} {engine : Engine}
  {filter : Option (List Text)} {keys : List Text} {key : Text}

theorem isSome_passed : (passed rows engine filter key).isSome = admits rows engine filter key := by
  cases filter with
  | none => rfl
  | some cs =>
      cases engine with
      | absent => rfl
      | failing => rfl
      | answering =>
          rw [passed, loadMetaFromDb, admits, Option.isSome_map, Option.isSome_map]
          cases rows.row? key with
          | none => rfl
          | some r => simp [Option.filter, apply_ite Option.isSome]

theorem keys_streamKeys :
    (streamKeys rows storage engine filter keys).records.map ExportRecord.key =
      (keys.takeWhile fun key =>
        !admits rows engine filter key || (storage.load rows key).isOk).filter fun key =>
          admits rows engine filter key && (storage.load rows key).toOption.join.isSome := by
  induction keys with
  | nil => rfl
  | cons key keys ih =>
      rw [streamKeys, List.takeWhile_cons]
      cases hpassed : passed rows engine filter key with
      | none =>
          have hadmits : admits rows engine filter key = false := by
            rw [← isSome_passed, hpassed]
            rfl
          simpa [hadmits] using ih
      | some labels =>
          have hadmits : admits rows engine filter key = true := by
            rw [← isSome_passed, hpassed]
            rfl
          cases hload : storage.load rows key with
          | error e => simp [hadmits, Except.isOk, Except.toBool]
          | ok data? =>
              cases data? with
              | none => simpa [hadmits, hload, Except.isOk, Except.toBool, Except.toOption] using ih
              | some data =>
                  simpa [hadmits, hload, Except.isOk, Except.toBool, Except.toOption] using ih

theorem exportedKeys_eq : exportedKeys rows storage engine filter =
    (reached rows storage engine filter).filter fun key =>
      admits rows engine filter key && (storage.load rows key).toOption.join.isSome := by
  rw [exportedKeys, stream, reached]
  cases storage.listKeys rows with
  | error e => rfl
  | ok keys => exact keys_streamKeys

theorem loads_iff :
    storage.Loads rows key ↔ (storage.load rows key).toOption.join.isSome = true := by
  rw [PatternStorage.Loads]
  cases storage.load rows key with
  | error e => simp [Except.toOption]
  | ok data? => cases data? <;> simp [Except.toOption]

theorem mem_exportedKeys : key ∈ exportedKeys rows storage engine filter ↔
    key ∈ reached rows storage engine filter ∧ admits rows engine filter key = true ∧
      storage.Loads rows key := by
  rw [exportedKeys_eq, List.mem_filter, Bool.and_eq_true, loads_iff]

theorem count_exportedKeys (hadmits : admits rows engine filter key = true)
    (hloads : storage.Loads rows key) :
    (exportedKeys rows storage engine filter).count key =
      (reached rows storage engine filter).count key := by
  rw [exportedKeys_eq]
  apply List.count_filter
  rw [hadmits, loads_iff.mp hloads]
  rfl

theorem filterKept_iff_reached : FilterKept rows storage engine filter ↔
    (∀ key ∈ reached rows storage engine filter, admits rows engine filter key = true →
      storage.Loads rows key → ∀ cs ∈ filter, labelOf rows key ∈ cs) ∧
    ∀ key, storage.Holds rows key → (∀ cs ∈ filter, labelOf rows key ∈ cs) →
      admits rows engine filter key = true ∧
        (reached rows storage engine filter).count key = 1 := by
  constructor
  · intro h
    refine ⟨fun key hkey hadmits hloads =>
      h.admitted key (mem_exportedKeys.mpr ⟨hkey, hadmits, hloads⟩), ?_⟩
    intro key hholds hlabel
    have hcount := h.complete key hholds hlabel
    have hmem : key ∈ exportedKeys rows storage engine filter :=
      List.count_pos_iff.mp (hcount ▸ Nat.one_pos)
    have hadmits := (mem_exportedKeys.mp hmem).2.1
    exact ⟨hadmits, (count_exportedKeys hadmits hholds.2.2).symm.trans hcount⟩
  · intro ⟨hadmitted, hcomplete⟩
    constructor
    · intro key hkey
      obtain ⟨hreached, hadmits, hloads⟩ := mem_exportedKeys.mp hkey
      exact hadmitted key hreached hadmits hloads
    · intro key hholds hlabel
      obtain ⟨hadmits, hcount⟩ := hcomplete key hholds hlabel
      exact (count_exportedKeys hadmits hholds.2.2).trans hcount

theorem admits_answering {cs : List Text} :
    admits rows .answering (some cs) key = true ↔
      ∃ r, rows.row? key = some r ∧ patternsPrefix <+: key ∧ (cs = [] ∨ r.classification ∈ cs) := by
  rw [admits, Option.any_eq_true]
  apply exists_congr
  intro r
  refine and_congr_right fun hr => ?_
  have hkey : r.key = key := (Table.row?_eq_some.mp hr).2
  simp [queried, hkey, List.isEmpty_iff]

theorem labelOf_row {r : MemoryRow} (hr : rows.row? key = some r) :
    labelOf rows key = r.classification := by
  rw [labelOf, hr]
  rfl

end Streams

section Postgres
variable {F : Type} {rows : MemoryRows} {collation : Text → Text → Bool} {engine : Engine}
  {filter : Option (List Text)}

theorem reached_postgres :
    reached rows (.postgres collation : PatternStorage F) engine filter =
      (rowKeys rows collation).filter fun key => exportPrefix.isPrefixOf key := by
  rw [reached, PatternStorage.listKeys]
  exact List.takeWhile_eq_self_iff.mpr fun key _ => Bool.or_true _

theorem row_of_loads {key : Text} (h : (.postgres collation : PatternStorage F).Loads rows key) :
    ∃ r, rows.row? key = some r := by
  obtain ⟨data, hload⟩ := h
  apply Option.ne_none_iff_exists'.mp
  intro hnone
  rw [PatternStorage.load, hnone] at hload
  cases hload

theorem reachesOnce_postgres (selected : Text → Prop) :
    ReachesOnce rows (.postgres collation : PatternStorage F) engine filter selected := by
  intro key ⟨hpre, _, hloads⟩ _
  obtain ⟨r, hr⟩ := row_of_loads hloads
  obtain ⟨hmem, rfl⟩ := Table.row?_eq_some.mp hr
  have hnodup : (rowKeys rows collation).Nodup :=
    (List.mergeSort_perm _ _).nodup_iff.mpr rows.unique
  rw [reached_postgres]
  apply List.count_eq_one_of_mem (hnodup.filter _)
  rw [List.mem_filter, rowKeys, List.mem_mergeSort, List.isPrefixOf_iff_prefix]
  exact ⟨List.mem_map_of_mem hmem, (List.dropLast_prefix _).trans hpre⟩

theorem keepable_answering_postgres {cs : List Text} :
    Keepable rows (.postgres collation : PatternStorage F) .answering (some cs) ↔
      (cs = [] → ∀ key, ¬ (.postgres collation : PatternStorage F).Holds rows key) := by
  constructor
  · intro h hempty key hholds
    have honce : ReachesOnce rows (.postgres collation : PatternStorage F) .answering (some cs)
        fun _ => True := reachesOnce_postgres _
    have hreached := List.count_pos_iff.mp ((honce key hholds trivial).symm ▸ Nat.one_pos)
    obtain ⟨r, hr⟩ := row_of_loads hholds.2.2
    rw [h.1 hempty key hreached hholds.2.2 hholds.1] at hr
    cases hr
  · intro h
    refine ⟨fun hempty key _ hloads hpre => ?_, fun key hholds _ hnone => ?_,
      reachesOnce_postgres _⟩
    · exact absurd ⟨hpre, trivial, hloads⟩ (h hempty key)
    · obtain ⟨r, hr⟩ := row_of_loads hholds.2.2
      rw [hnone] at hr
      cases hr

end Postgres

section Sample

def publicLabel : Text := "public".toList

def confidentialRow : MemoryRow where
  key := patternsPrefix ++ "a2".toList
  data := .obj []
  classification := "confidential".toList

/-- A public pattern and a confidential one. -/
def labelledRows : MemoryRows where
  rows :=
    [{ key := patternsPrefix ++ "a1".toList, data := .obj [], classification := publicLabel },
      confidentialRow]
  unique := by decide

def labelledStorage : PatternStorage Nat := .postgres fun a b => decide (a ≤ b)

end Sample

end Engramia.Governance
