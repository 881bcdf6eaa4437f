import Engramia.Governance.Export
import Engramia.Patterns.Classification

/-!
The way of a store through `Memory.export` and `Memory.import_data`. Learning and boosting keep
the documents to dicts under accepted keys, which no filter of the import drops, so the records
of an export bring an empty store to the same documents. The import also embeds the tasks again.

The backend is a map that lists its keys in order, and documents keep their values in a record.
-/
namespace Engramia.Patterns
open Engramia.Governance Engramia.Library Engramia.Storage

section Definitions

/-- The order of the keys of a listing is a total one. -/
structure OrderedMath extends PatternMath where
  total : ∀ a b, (collation a b || collation b a) = true
  trans : ∀ a b c, collation a b = true → collation b c = true → collation a c = true
  antisymm : ∀ a b, collation a b = true → collation b a = true → a = b

/-- What a new key is made of: some of the digest of the task, the clock and random letters
and digits. -/
structure NewKey where
  taskHash : Text
  ts : ℕ
  rand : Text
  alphanumeric : ∀ c ∈ taskHash ++ rand, c.isAlphanum = true

def NewKey.stamp (k : NewKey) : Text :=
  k.taskHash ++ '_' :: (Nat.toDigits 10 k.ts ++ '_' :: k.rand)

/-- The calls of `learn` and `mark_reused`. -/
def LearnsOrReuses : PatternOp → Prop
  | .learn run _ => ∃ k : NewKey, run.stamp = k.stamp
  | .markReused _ _ => True
  | .importData _ _ => False
  | .classify _ _ _ => False
  | .runAging _ _ => False

def loadRow (rows : MemoryRows) (key : Text) : Option (Json Text) :=
  (rows.row? key).map MemoryRow.data

/-- `Memory.export` -/
def exportPatterns (N : PatternMath) (rows : MemoryRows) : List ImportRecord :=
  ((rowKeys rows N.collation).filter fun key => exportPrefix.isPrefixOf key).filterMap fun key =>
    (loadRow rows key).map fun data => ⟨some (.int 1), some (.str key), some data⟩

variable {F : Type}

/-- The embedding provider, `none` where it raises, and what the backend makes of a vector. -/
structure Embedder (F : Type) where
  embed : Text → Option (List F)
  saveEmbedding : Text → List F → Index F → Index F

structure PatternMemory (F : Type) where
  rows : MemoryRows
  embeddings : Index F

/-- An imported task is embedded again where there is a provider. An error is logged. -/
def embedAgain (embedder : Option (Embedder F)) (key : Text) (data : Json Text)
    (embeddings : Index F) : Index F :=
  match embedder, (data.get? taskField).bind Json.text? with
  | some embedder, some task =>
      if task.isEmpty then embeddings
      else
        match embedder.embed task with
        | none => embeddings
        | some embedding => embedder.saveEmbedding key embedding embeddings
  | some _, none => embeddings
  | none, _ => embeddings

/-- The loop of `Memory.import_data`, with the number of records imported, or `none` where it
raises. -/
def importLoop (embedder : Option (Embedder F)) (overwrite : Bool) :
    List ImportRecord → PatternMemory F → Option ℕ × PatternMemory F
  | [], m => (some 0, m)
  | record :: records, m =>
      if record.raises then (none, m)
      else
        match record.document? with
        | none => importLoop embedder overwrite records m
        | some (key, data) =>
            if !overwrite && (m.rows.row? key).isSome then
              importLoop embedder overwrite records m
            else
              let after := importLoop embedder overwrite records
                ⟨saveRow m.rows key data, embedAgain embedder key data m.embeddings⟩
              (after.1.map (· + 1), after.2)

/-- Every document is a dict under a key that an import accepts. -/
def Exportable (rows : MemoryRows) : Prop :=
  ∀ key r, rows.row? key = some r → AcceptedKey key ∧ ∃ fields, r.data = .obj fields

def newMemory : PatternMemory F := ⟨noRows, .empty⟩

/-- The records of an export bring an empty store to the documents they were taken from, and
bring nothing to it the second time. -/
structure RoundTrip (N : PatternMath) (embedder : Option (Embedder F)) (overwrite : Bool)
    (rows : MemoryRows) : Prop where
  imported : (importLoop embedder overwrite (exportPatterns N rows) newMemory).1 =
    some (exportPatterns N rows).length
  loads : ∀ key,
    loadRow (importLoop embedder overwrite (exportPatterns N rows) newMemory).2.rows key =
      loadRow rows key
  exports :
    exportPatterns N (importLoop embedder overwrite (exportPatterns N rows) newMemory).2.rows =
      exportPatterns N rows
  again : importLoop embedder false (exportPatterns N rows)
      (importLoop embedder overwrite (exportPatterns N rows) newMemory).2 =
    (some 0, (importLoop embedder overwrite (exportPatterns N rows) newMemory).2)

end Definitions

section Keys
variable {key : Text}

theorem NewKey.dot_notMem (k : NewKey) : '.' ∉ k.stamp := by
  intro hmem
  have hdot : ('.' : Char).isAlphanum = false := by decide
  cases List.mem_append.mp hmem with
  | inl h =>
      rw [k.alphanumeric _ (List.mem_append_left _ h)] at hdot
      cases hdot
  | inr h =>
      cases List.mem_cons.mp h with
      | inl h => revert h; decide
      | inr h =>
          cases List.mem_append.mp h with
          | inl h =>
              have hdigit := Nat.isDigit_of_mem_toDigits (by decide) (by decide) h
              revert hdigit
              decide
          | inr h =>
              cases List.mem_cons.mp h with
              | inl h => revert h; decide
              | inr h =>
                  rw [k.alphanumeric _ (List.mem_append_right _ h)] at hdot
                  cases hdot

theorem NewKey.accepted (k : NewKey) : AcceptedKey (patternKey k.stamp) := by
  refine ⟨⟨k.stamp, rfl⟩, ?_⟩
  intro hdots
  have hmem : '.' ∈ patternKey k.stamp := hdots.mem List.mem_cons_self
  cases List.mem_append.mp hmem with
  | inl h => revert h; decide
  | inr h => exact k.dot_notMem h

end Keys

section Reachable
variable {svc : LearningService} {N : PatternMath} {rows : MemoryRows} {key : Text}
  {data : Json Text} {fields : List (Text × Json Text)} {m : PatternMeta}

theorem exportable_saveRow (h : Exportable rows) (hkey : AcceptedKey key)
    (hdata : data = .obj fields) : Exportable (saveRow rows key data) := by
  intro k r hr
  rw [row?_saveRow] at hr
  by_cases hk : k = key
  · rw [if_pos hk] at hr
    cases hr
    rw [MemoryRow.data_saved]
    exact ⟨hk ▸ hkey, fields, hdata⟩
  · rw [if_neg hk] at hr
    exact h k r hr

theorem jsonbSet_obj {path : List Text} {value : Text} {data' : Json Text} (hpath : path ≠ [])
    (h : jsonbSet path value (.obj fields) = some data') : ∃ fields', data' = .obj fields' := by
  cases path with
  | nil => exact absurd rfl hpath
  | cons k rest =>
      cases rest with
      | nil =>
          cases h
          exact ⟨_, rfl⟩
      | cons k' rest =>
          rw [jsonbSet, Json.setPath.eq_def] at h
          dsimp only at h
          split at h
          · cases h
            exact ⟨_, rfl⟩
          · obtain ⟨child, _, h⟩ := Option.map_eq_some_iff.mp h
            exact ⟨_, h.symm⟩

theorem mirrored_obj {data' : Json Text} (h : m.mirrored (.obj fields) = some data') :
    ∃ fields', data' = .obj fields' := by
  rw [PatternMeta.mirrored, Option.bind_eq_some_iff] at h
  obtain ⟨data₁, hlabelled, hsource⟩ := h
  have h₁ : ∃ fields₁, data₁ = .obj fields₁ := by
    cases hclass : m.classification with
    | none =>
        rw [hclass] at hlabelled
        cases hlabelled
        exact ⟨_, rfl⟩
    | some label =>
        rw [hclass] at hlabelled
        exact jsonbSet_obj (List.cons_ne_nil _ _) hlabelled
  obtain ⟨fields₁, rfl⟩ := h₁
  cases hm : m.source with
  | none =>
      rw [hm] at hsource
      cases hsource
      exact ⟨_, rfl⟩
  | some label =>
      rw [hm] at hsource
      exact jsonbSet_obj (List.cons_ne_nil _ _) hsource

theorem exportable_savePatternMetaRow (h : Exportable rows) :
    Exportable (savePatternMetaRow rows key m) := by
  intro k r hr
  rw [row?_savePatternMetaRow] at hr
  by_cases hk : k = key
  · rw [if_pos hk] at hr
    obtain ⟨r₀, hr₀, hr⟩ := Option.map_eq_some_iff.mp hr
    obtain ⟨hkey, fields, hdata⟩ := h key r₀ hr₀
    rw [hk, ← hr]
    refine ⟨hkey, ?_⟩
    by_cases hempty : m.isEmpty = true
    · rw [if_pos hempty]
      exact ⟨fields, hdata⟩
    · rw [if_neg hempty, hdata]
      cases hm : m.mirrored (.obj fields) with
      | none => exact ⟨fields, hdata⟩
      | some data' => exact mirrored_obj hm
  · rw [if_neg hk] at hr
    exact h k r hr

theorem learnedKey_accepted {run : LearnRun} {c : LearnCall} {k : NewKey} (h : Exportable rows)
    (hstamp : run.stamp = k.stamp) (hkey : learnedKey svc N run c rows = some key) :
    AcceptedKey key := by
  rw [learnedKey] at hkey
  split at hkey
  · cases hkey
  · cases hfound : if c.onDuplicate = .keepBoth then none
        else findDuplicateRow svc N c.task rows with
    | none =>
        rw [hfound] at hkey
        cases hkey
        rw [hstamp]
        exact k.accepted
    | some r =>
        have hr : rows.row? r.key = some r := by
          split at hfound
          · cases hfound
          · obtain ⟨k, _, hk⟩ := List.mem_filterMap.mp (List.mem_of_find?_eq_some hfound)
            rw [(Table.row?_eq_some.mp hk).2]
            exact hk
        rw [hfound] at hkey
        dsimp only at hkey
        split at hkey
        · cases hkey
        · split at hkey
          · cases hkey
            exact (h _ _ hr).1
          · cases hkey

theorem exportable_learnRow {run : LearnRun} {c : LearnCall} {k : NewKey} (h : Exportable rows)
    (hstamp : run.stamp = k.stamp) : Exportable (learnRow svc N run c rows) := by
  rw [learnRow]
  cases hkey : learnedKey svc N run c rows with
  | none => exact h
  | some key =>
      have hstored : Exportable (saveRow rows key (learnedDoc svc run c)) :=
        exportable_saveRow h (learnedKey_accepted h hstamp hkey) rfl
      dsimp only
      split
      · exact exportable_savePatternMetaRow hstored
      · exact hstored

theorem exportable_markReusedRow {now : ℚ} (h : Exportable rows) :
    Exportable (markReusedRow N now key rows) := by
  rw [markReusedRow]
  cases hrow : rows.row? key with
  | none => exact h
  | some r =>
      dsimp only
      cases hp : validate N now r.data with
      | none => exact h
      | some p => exact exportable_saveRow h (h key r hrow).1 rfl

theorem exportable_applyOp {op : PatternOp} (h : Exportable rows) (hop : LearnsOrReuses op) :
    Exportable (applyOp svc N rows op) := by
  cases op with
  | learn run c =>
      obtain ⟨k, hstamp⟩ := hop
      exact exportable_learnRow h hstamp
  | markReused now key => exact exportable_markReusedRow h
  | importData records overwrite => exact hop.elim
  | classify key label updates => exact hop.elim
  | runAging now reached => exact hop.elim

theorem exportable_exec {ops : List PatternOp} (h : Exportable rows)
    (hops : ∀ op ∈ ops, LearnsOrReuses op) : Exportable (exec (applyOp svc N) rows ops) := by
  induction ops generalizing rows with
  | nil => exact h
  | cons op ops ih =>
      exact ih (exportable_applyOp h (hops op List.mem_cons_self))
        (fun op hop => hops op (List.mem_cons_of_mem _ hop))

end Reachable

section Exports
variable {N : PatternMath} {rows rows' : MemoryRows} {key : Text} {F : Type}
  {embedder : Option (Embedder F)} {overwrite : Bool} {records : List ImportRecord}
  {m : PatternMemory F}

/-- The record of a key with its document. -/
def exportRecord (x : Text × Json Text) : ImportRecord :=
  ⟨some (.int 1), some (.str x.1), some x.2⟩

/-- The keys with the documents that a listing comes to. -/
def listedDocuments (N : PatternMath) (rows : MemoryRows) : List (Text × Json Text) :=
  (rowKeys rows N.collation).filterMap fun key => (loadRow rows key).map fun data => (key, data)

theorem exportPatterns_eq (h : Exportable rows) :
    exportPatterns N rows = (listedDocuments N rows).map exportRecord := by
  have hkeys : (rowKeys rows N.collation).filter (fun key => exportPrefix.isPrefixOf key) =
      rowKeys rows N.collation := by
    apply List.filter_eq_self.mpr
    intro key hkey
    obtain ⟨r, hr, hk⟩ := List.mem_map.mp ((List.mergeSort_perm _ _).mem_iff.mp hkey)
    obtain ⟨⟨rest, hrest⟩, _⟩ := (h key r (Table.row?_eq_some.mpr ⟨hr, hk⟩)).1
    rw [List.isPrefixOf_iff_prefix]
    exact ⟨'/' :: rest, hrest⟩
  rw [exportPatterns, hkeys, listedDocuments, List.map_filterMap]
  congr 1
  funext key
  cases loadRow rows key with
  | none => rfl
  | some data => rfl

theorem mem_listedDocuments {data : Json Text} :
    (key, data) ∈ listedDocuments N rows ↔ loadRow rows key = some data := by
  rw [listedDocuments, List.mem_filterMap]
  constructor
  · intro h
    obtain ⟨k, _, hk⟩ := h
    obtain ⟨data', hdata', heq⟩ := Option.map_eq_some_iff.mp hk
    cases heq
    exact hdata'
  · intro h
    obtain ⟨r, hr, _⟩ := Option.map_eq_some_iff.mp h
    obtain ⟨hmem, hkey⟩ := Table.row?_eq_some.mp hr
    refine ⟨key, (List.mergeSort_perm _ _).mem_iff.mpr (List.mem_map.mpr ⟨r, hmem, hkey⟩), ?_⟩
    rw [h]
    rfl

theorem listedDocuments_keys : (listedDocuments N rows).map Prod.fst =
    rowKeys rows N.collation := by
  rw [listedDocuments, List.map_filterMap]
  apply (List.filterMap_congr (g := some) ?_).trans List.filterMap_some
  intro key hkey
  obtain ⟨r, hr, hk⟩ := List.mem_map.mp ((List.mergeSort_perm _ _).mem_iff.mp hkey)
  rw [loadRow, Table.row?_eq_some.mpr ⟨hr, hk⟩]
  rfl

theorem listedDocuments_nodup : ((listedDocuments N rows).map Prod.fst).Nodup := by
  rw [listedDocuments_keys]
  exact (List.mergeSort_perm _ _).nodup_iff.mpr rows.unique

theorem rowKeys_congr (O : OrderedMath) (h : ∀ key, loadRow rows' key = loadRow rows key) :
    rowKeys rows' O.collation = rowKeys rows O.collation := by
  have hlive : ∀ rows : MemoryRows, ∀ key,
      key ∈ rows.rows.map MemoryRow.key ↔ loadRow rows key ≠ none := by
    intro rows key
    rw [loadRow, ne_eq, Option.map_eq_none_iff, Table.row?_eq_none, not_not]
  have hperm : (rows'.rows.map MemoryRow.key).Perm (rows.rows.map MemoryRow.key) := by
    apply (List.perm_ext_iff_of_nodup rows'.unique rows.unique).mpr
    intro key
    rw [hlive, hlive, h]
  refine List.Perm.eq_of_pairwise ?_ (List.pairwise_mergeSort O.trans O.total _)
    (List.pairwise_mergeSort O.trans O.total _) ?_
  · intro a b _ _ hab hba
    exact O.antisymm a b hab hba
  · exact ((List.mergeSort_perm _ _).trans hperm).trans (List.mergeSort_perm _ _).symm

theorem exportPatterns_congr (O : OrderedMath)
    (h : ∀ key, loadRow rows' key = loadRow rows key) :
    exportPatterns O.toPatternMath rows' = exportPatterns O.toPatternMath rows := by
  rw [exportPatterns, exportPatterns, rowKeys_congr O h]
  apply List.filterMap_congr
  intro key _
  rw [h key]

theorem exportRecord_document {x : Text × Json Text} (hkey : AcceptedKey x.1)
    (hdata : ∃ fields, x.2 = .obj fields) :
    (exportRecord x).raises = false ∧ (exportRecord x).document? = some x := by
  obtain ⟨key, data⟩ := x
  obtain ⟨fields, rfl⟩ := hdata
  have hne : key.isEmpty = false := by
    obtain ⟨rest, hrest⟩ := hkey.1
    rw [show key = _ from hrest.symm]
    rfl
  have hskipped : (exportRecord (key, .obj fields)).skipped = false := by
    simp [exportRecord, ImportRecord.skipped, importVersion, truthy, hne, Json.fields?]
  constructor
  · simp [ImportRecord.raises, exportRecord, Json.text?]
  · rw [ImportRecord.document?, hskipped, if_neg Bool.false_ne_true]
    exact if_pos hkey

theorem importLoop_rows :
    (importLoop embedder overwrite records m).2.rows = importData records overwrite m.rows := by
  induction records generalizing m with
  | nil => rfl
  | cons record records ih =>
      rw [importLoop, importData, importable]
      by_cases hraises : record.raises = true
      · rw [if_pos hraises, List.takeWhile_cons_of_neg (by simp [hraises])]
        rfl
      · rw [if_neg hraises, List.takeWhile_cons_of_pos (by simp [hraises])]
        cases hdocument : record.document? with
        | none =>
            rw [List.filterMap_cons_none hdocument]
            exact ih
        | some x =>
            obtain ⟨key, data⟩ := x
            rw [List.filterMap_cons_some hdocument, importDocuments]
            dsimp only
            split
            · exact ih
            · exact ih

theorem importLoop_cons {x : Text × Json Text} (hkey : AcceptedKey x.1)
    (hdata : ∃ fields, x.2 = .obj fields) :
    importLoop embedder overwrite (exportRecord x :: records) m =
      if !overwrite && (m.rows.row? x.1).isSome then importLoop embedder overwrite records m
      else
        let after := importLoop embedder overwrite records
          ⟨saveRow m.rows x.1 x.2, embedAgain embedder x.1 x.2 m.embeddings⟩
        (after.1.map (· + 1), after.2) := by
  obtain ⟨hraises, hdocument⟩ := exportRecord_document hkey hdata
  rw [importLoop, hraises, hdocument]
  rfl

theorem loadRow_saveRow {k : Text} {data : Json Text} : loadRow (saveRow rows key data) k =
    if k = key then some data else loadRow rows k := by
  rw [loadRow, row?_saveRow]
  by_cases hk : k = key
  · rw [if_pos hk, if_pos hk, Option.map_some, MemoryRow.data_saved]
  · rw [if_neg hk, if_neg hk, loadRow]

theorem importLoop_fresh (embedder : Option (Embedder F)) (overwrite : Bool)
    {documents : List (Text × Json Text)}
    (hdocuments : ∀ x ∈ documents, AcceptedKey x.1 ∧ ∃ fields, x.2 = .obj fields)
    (hnodup : (documents.map Prod.fst).Nodup)
    (hfresh : ∀ x ∈ documents, m.rows.row? x.1 = none) :
    (importLoop embedder overwrite (documents.map exportRecord) m).1 = some documents.length ∧
      (∀ x ∈ documents, loadRow
        (importLoop embedder overwrite (documents.map exportRecord) m).2.rows x.1 = some x.2) ∧
      ∀ key, key ∉ documents.map Prod.fst →
        loadRow (importLoop embedder overwrite (documents.map exportRecord) m).2.rows key =
          loadRow m.rows key := by
  induction documents generalizing m with
  | nil => exact ⟨rfl, fun _ h => absurd h List.not_mem_nil, fun _ _ => rfl⟩
  | cons x documents ih =>
      obtain ⟨hx, hdocuments⟩ := List.forall_mem_cons.mp hdocuments
      obtain ⟨hxfresh, hfresh⟩ := List.forall_mem_cons.mp hfresh
      obtain ⟨hxnew, hnodup⟩ := List.nodup_cons.mp hnodup
      have hnext : ∀ y ∈ documents, (saveRow m.rows x.1 x.2).row? y.1 = none := by
        intro y hy
        rw [row?_saveRow, if_neg]
        · exact hfresh y hy
        · intro heq
          exact hxnew (heq ▸ List.mem_map.mpr ⟨y, hy, rfl⟩)
      obtain ⟨hcount, hloads, hothers⟩ :=
        @ih ⟨saveRow m.rows x.1 x.2, embedAgain embedder x.1 x.2 m.embeddings⟩ hdocuments hnodup
          hnext
      rw [List.map_cons, importLoop_cons hx.1 hx.2, hxfresh, Option.isSome_none, Bool.and_false,
        if_neg Bool.false_ne_true]
      dsimp only
      refine ⟨by rw [hcount]; rfl, List.forall_mem_cons.mpr ⟨?_, hloads⟩, ?_⟩
      · rw [hothers x.1 hxnew, loadRow_saveRow, if_pos rfl]
      · intro key hkey
        obtain ⟨hne, hkey⟩ := not_or.mp (fun h => hkey (List.mem_cons.mpr h))
        rw [hothers key hkey, loadRow_saveRow, if_neg hne]

theorem importLoop_present {documents : List (Text × Json Text)}
    (hdocuments : ∀ x ∈ documents, AcceptedKey x.1 ∧ ∃ fields, x.2 = .obj fields)
    (hpresent : ∀ x ∈ documents, (m.rows.row? x.1).isSome = true) :
    importLoop embedder false (documents.map exportRecord) m = (some 0, m) := by
  induction documents with
  | nil => rfl
  | cons x documents ih =>
      obtain ⟨hx, hdocuments⟩ := List.forall_mem_cons.mp hdocuments
      obtain ⟨hxpresent, hpresent⟩ := List.forall_mem_cons.mp hpresent
      rw [List.map_cons, importLoop_cons hx.1 hx.2, hxpresent]
      exact ih hdocuments hpresent

end Exports

theorem roundTrip_of_exportable {F : Type} (O : OrderedMath) (embedder : Option (Embedder F))
    (overwrite : Bool) {rows : MemoryRows} (h : Exportable rows) :
    RoundTrip O.toPatternMath embedder overwrite rows := by
  have hdocuments : ∀ x ∈ listedDocuments O.toPatternMath rows,
      AcceptedKey x.1 ∧ ∃ fields, x.2 = .obj fields := by
    intro x hx
    obtain ⟨r, hr, hdata⟩ := Option.map_eq_some_iff.mp (mem_listedDocuments.mp hx)
    obtain ⟨hkey, fields, hfields⟩ := h x.1 r hr
    exact ⟨hkey, fields, hdata ▸ hfields⟩
  have hexport := exportPatterns_eq (N := O.toPatternMath) h
  obtain ⟨hcount, hlisted, hothers⟩ := importLoop_fresh (m := newMemory) embedder overwrite
    hdocuments listedDocuments_nodup fun _ _ => rfl
  rw [← hexport] at hcount hlisted hothers
  have hloads : ∀ key, loadRow
      (importLoop embedder overwrite (exportPatterns O.toPatternMath rows) newMemory).2.rows key =
        loadRow rows key := by
    intro key
    cases hload : loadRow rows key with
    | none =>
        rw [hothers key]
        · rfl
        · intro hkey
          obtain ⟨x, hx, heq⟩ := List.mem_map.mp hkey
          have hdata := mem_listedDocuments.mp hx
          rw [heq, hload] at hdata
          cases hdata
    | some data => exact hlisted (key, data) (mem_listedDocuments.mpr hload)
  constructor
  · rw [hcount, hexport, List.length_map]
  · exact hloads
  · exact exportPatterns_congr O hloads
  · rw [hexport]
    apply importLoop_present hdocuments
    intro x hx
    have hload := hloads x.1
    rw [mem_listedDocuments.mp hx, hexport] at hload
    obtain ⟨r, hr, _⟩ := Option.map_eq_some_iff.mp hload
    rw [hr]
    rfl

/-- Whatever has been learned and reused, the records of an export bring an empty store to the
same documents, are its export again, and are all skipped the second time. -/
theorem export_import_round_trip {F : Type} (svc : LearningService) (O : OrderedMath)
    (embedder : Option (Embedder F)) (overwrite : Bool) (ops : List PatternOp)
    (hops : ∀ op ∈ ops, LearnsOrReuses op) :
    RoundTrip O.toPatternMath embedder overwrite
      (exec (applyOp svc O.toPatternMath) noRows ops) := by
  apply roundTrip_of_exportable
  apply exportable_exec _ hops
  intro key r hr
  cases hr

section Sample

def orderedMath : OrderedMath where
  toPatternMath := plainMath
  total a b := by
    simp only [plainMath, Bool.or_eq_true, decide_eq_true_eq]
    exact le_total a b
  trans a b c hab hbc := by
    simp only [plainMath, decide_eq_true_eq] at hab hbc ⊢
    exact hab.trans hbc
  antisymm a b hab hba := by
    simp only [plainMath, decide_eq_true_eq] at hab hba
    exact le_antisymm hab hba

def sampleKey : NewKey :=
  ⟨['a'], 0, ['b'], List.forall_mem_cons.mpr ⟨rfl, List.forall_mem_singleton.mpr rfl⟩⟩

def drawKey : NewKey :=
  ⟨['c'], 5, ['d'], List.forall_mem_cons.mpr ⟨rfl, List.forall_mem_singleton.mpr rfl⟩⟩

/-- Two patterns are learned, the first is reused and then learned again. -/
def learnAndReuse : List PatternOp :=
  [.learn ⟨0, sampleKey.stamp, true, true⟩ sortCall,
    .learn ⟨5, drawKey.stamp, true, false⟩
      { sortCall with task := "draw a map".toList, code := "plot(points)".toList },
    .markReused 6 (patternKey sampleKey.stamp),
    .learn ⟨7, drawKey.stamp, true, true⟩ { sortCall with evalScore := 10 }]

theorem learnAndReuse_learnsOrReuses : ∀ op ∈ learnAndReuse, LearnsOrReuses op := by
  rw [learnAndReuse, List.forall_mem_cons, List.forall_mem_cons, List.forall_mem_cons,
    List.forall_mem_singleton]
  exact ⟨⟨sampleKey, rfl⟩, ⟨drawKey, rfl⟩, trivial, ⟨drawKey, rfl⟩⟩

theorem export_import_round_trip_learned :
    RoundTrip (F := Nat) orderedMath.toPatternMath none false
      (exec (applyOp plainService orderedMath.toPatternMath) noRows learnAndReuse) :=
  export_import_round_trip plainService orderedMath none false learnAndReuse
    learnAndReuse_learnsOrReuses

end Sample

end Engramia.Patterns
