import Engramia.Patterns.Classification

/-!
Whether an aging run comes to its end. The run validates each document, and one that is no
pattern raises, so the run completes over exactly the stores in which every document is a
pattern. Learning, boosting, labelling and aging itself keep to such documents. An import
writes any dict.

The rows are documents under keys of their own, be it those of the database or files.
-/
namespace Engramia.Patterns
open Engramia.Library Engramia.Storage

section Definitions

/-- The numbers of a dump are read as they are, a decay does not raise a score, and rounding
keeps it between 0 and 10. -/
structure LawfulMath extends PatternMath where
  float_num : ∀ q, float (.num q) = some q
  int_int : ∀ n, int (.int n) = some n
  decayed_le : ∀ score weeks, 0 ≤ score → 0 ≤ weeks → decayed score weeks ≤ score
  round_bounds : ∀ score, 0 ≤ score → score ≤ 10 → 0 ≤ round score ∧ round score ≤ 10

variable (N : PatternMath)

def IsPattern (data : Json Text) : Prop := ∀ now, ∃ p, validate N now data = some p

def AllPatterns (rows : MemoryRows) : Prop :=
  ∀ key r, rows.row? key = some r → IsPattern N r.data

/-- The row that a run leaves of a pattern, which is none when it is pruned. -/
def agedRecord (now : ℚ) (r : MemoryRow) (p : PatternDoc) : Option MemoryRow :=
  if decayedAt N now p < minScore then none
  else some (r.withData (rewritten { p with successScore := N.round (decayedAt N now p) } r.data))

/-- The loop of `run_aging`, with the number of patterns pruned, or `none` where it raises. -/
def agingLoop (now : ℚ) : List Text → MemoryRows → Option ℕ × MemoryRows
  | [], rows => (some 0, rows)
  | key :: keys, rows =>
      match rows.row? key with
      | none => agingLoop now keys rows
      | some r =>
          match validate N now r.data with
          | none => (none, rows)
          | some p =>
              let after := agingLoop now keys (agedRow N now key r.data p rows)
              (after.1.map (· + if decayedAt N now p < minScore then 1 else 0), after.2)

/-- A run over all the keys. -/
def agingRun (now : ℚ) (rows : MemoryRows) : Option ℕ × MemoryRows :=
  agingLoop N now (rowKeys rows N.collation) rows

/-- At every instant a run returns, and it ages or prunes each row that is a pattern. -/
structure AgingCompletes (rows : MemoryRows) : Prop where
  returns : ∀ now, ∃ pruned, (agingRun N now rows).1 = some pruned
  ages : ∀ now key r p, rows.row? key = some r → validate N now r.data = some p →
    (agingRun N now rows).2.row? key = agedRecord N now r p

/-- The keys that an operation saves new documents under. -/
def PatternOp.savedKeys : PatternOp → List Text
  | .learn run _ => [patternKey run.stamp]
  | .importData records _ => (importable records).map Prod.fst
  | .classify _ _ _ => []
  | .markReused _ _ => []
  | .runAging _ _ => []

/-- Each document that an import leaves under a key is a pattern. -/
def ImportsPatterns (rows : MemoryRows) : PatternOp → Prop
  | .importData records overwrite =>
      ∀ key data, importedDocument overwrite (importable records) rows key = some data →
        IsPattern N data
  | .learn _ _ => True
  | .classify _ _ _ => True
  | .markReused _ _ => True
  | .runAging _ _ => True

end Definitions

section Documents
variable {N : PatternMath} {now : ℚ} {data data' : Json Text} {p : PatternDoc}

theorem validate_eq_some_iff : validate N now data = some p ↔
    data.get? designField = some (.obj p.design) ∧
      (data.get? taskField).bind Json.text? = some p.task ∧
      readOr N.float 1 (data.get? successScoreField) = some p.successScore ∧
      readOr N.int 0 (data.get? reuseCountField) = some p.reuseCount ∧
      readOr N.float now (data.get? timestampField) = some p.timestamp ∧
      0 ≤ p.successScore ∧ p.successScore ≤ 10 ∧ 0 ≤ p.reuseCount := by
  constructor
  · intro h
    have hdesign := validate_design h
    rw [validate, hdesign] at h
    rw [Option.bind_eq_bind, Option.bind_some] at h
    obtain ⟨design, hfields, h⟩ := Option.bind_eq_some_iff.mp h
    obtain ⟨task, htask, h⟩ := Option.bind_eq_some_iff.mp h
    obtain ⟨score, hscore, h⟩ := Option.bind_eq_some_iff.mp h
    obtain ⟨count, hcount, h⟩ := Option.bind_eq_some_iff.mp h
    obtain ⟨timestamp, htime, h⟩ := Option.bind_eq_some_iff.mp h
    by_cases hbounds : 0 ≤ score ∧ score ≤ 10 ∧ 0 ≤ count
    · rw [if_pos hbounds] at h
      cases h
      exact ⟨hdesign, htask, hscore, hcount, htime, hbounds⟩
    · rw [if_neg hbounds] at h
      cases h
  · intro h
    obtain ⟨hdesign, htask, hscore, hcount, htime, hbounds⟩ := h
    rw [validate, hdesign, htask, hscore, hcount, htime]
    exact if_pos hbounds

variable (now) in
theorem isPattern_of_validate (h : validate N now data = some p) : IsPattern N data := by
  obtain ⟨hdesign, htask, hscore, hcount, htime, hbounds⟩ := validate_eq_some_iff.mp h
  intro now'
  cases htimestamp : data.get? timestampField with
  | none =>
      refine ⟨{ p with timestamp := now' }, validate_eq_some_iff.mpr ?_⟩
      rw [htimestamp]
      exact ⟨hdesign, htask, hscore, hcount, rfl, hbounds⟩
  | some value =>
      rw [htimestamp] at htime
      refine ⟨p, validate_eq_some_iff.mpr ?_⟩
      rw [htimestamp]
      exact ⟨hdesign, htask, hscore, hcount, htime, hbounds⟩

theorem IsPattern.congr (h : IsPattern N data) (hdesign : HasDesign data')
    (hfields : ∀ k, k ≠ designField → data'.get? k = data.get? k) : IsPattern N data' := by
  obtain ⟨design, hdesign⟩ := hdesign
  intro now
  obtain ⟨p, hp⟩ := h now
  obtain ⟨_, htask, hscore, hcount, htime, hbounds⟩ := validate_eq_some_iff.mp hp
  refine ⟨{ p with design := design }, validate_eq_some_iff.mpr ?_⟩
  rw [hfields taskField (by decide), hfields successScoreField (by decide),
    hfields reuseCountField (by decide), hfields timestampField (by decide)]
  exact ⟨hdesign, htask, hscore, hcount, htime, hbounds⟩

theorem IsPattern.hasDesign (h : IsPattern N data) : HasDesign data := by
  obtain ⟨p, hp⟩ := h 0
  exact ⟨_, validate_design hp⟩

theorem IsPattern.jsonbSet {name value : Text} (h : IsPattern N data)
    (hset : Storage.jsonbSet [designField, name] value data = some data') : IsPattern N data' := by
  obtain ⟨design, hdesign⟩ := h.hasDesign
  obtain ⟨outer, houter, hafter, hothers⟩ := Json.setPath_pair name (.str value) hdesign
  have heq : data' = .obj outer := by
    cases data with
    | obj fields => exact Option.some.inj (hset.symm.trans houter)
    | _ => cases hdesign
  rw [heq]
  exact h.congr ⟨_, hafter⟩ hothers

theorem IsPattern.mirrored {m : PatternMeta} (h : IsPattern N data)
    (hm : m.mirrored data = some data') : IsPattern N data' := by
  rw [PatternMeta.mirrored, Option.bind_eq_some_iff] at hm
  obtain ⟨data₁, hlabelled, hsource⟩ := hm
  have h₁ : IsPattern N data₁ := by
    cases hclass : m.classification with
    | none =>
        rw [hclass] at hlabelled
        cases hlabelled
        exact h
    | some label =>
        rw [hclass] at hlabelled
        exact h.jsonbSet hlabelled
  cases hm : m.source with
  | none =>
      rw [hm] at hsource
      cases hsource
      exact h₁
  | some label =>
      rw [hm] at hsource
      exact h₁.jsonbSet hsource

end Documents

section Writes
variable {L : LawfulMath} {now : ℚ} {data : Json Text} {p : PatternDoc} {rows : MemoryRows}
  {key : Text}

theorem validate_rewritten (hscore : 0 ≤ p.successScore ∧ p.successScore ≤ 10)
    (hcount : 0 ≤ p.reuseCount) :
    validate L.toPatternMath now (rewritten p data) = some p :=
  validate_eq_some_iff.mpr
    ⟨rfl, rfl, L.float_num _, L.int_int _, L.float_num _, hscore.1, hscore.2, hcount⟩

theorem isPattern_learnedDoc {svc : LearningService} {run : LearnRun} {c : LearnCall}
    (h : 0 ≤ c.evalScore ∧ c.evalScore ≤ 10) :
    IsPattern L.toPatternMath (learnedDoc svc run c) := by
  apply isPattern_of_validate 0
    (p := ⟨c.task, (redactedDesign svc c).1.entries.map fun x => (x.1, .str x.2), c.evalScore, 0,
      run.now⟩)
  exact validate_eq_some_iff.mpr
    ⟨rfl, rfl, L.float_num _, L.int_int 0, L.float_num _, h.1, h.2, le_refl _⟩

theorem allPatterns_saveRow {N : PatternMath} (h : AllPatterns N rows) (hdata : IsPattern N data) :
    AllPatterns N (saveRow rows key data) := by
  intro k r hr
  rw [row?_saveRow] at hr
  by_cases hk : k = key
  · rw [if_pos hk] at hr
    cases hr
    rw [MemoryRow.data_saved]
    exact hdata
  · rw [if_neg hk] at hr
    exact h k r hr

theorem allPatterns_deleteRow {N : PatternMath} (h : AllPatterns N rows) :
    AllPatterns N (deleteRow rows key) := by
  intro k r hr
  rw [row?_deleteRow] at hr
  by_cases hk : k = key
  · rw [if_pos hk] at hr
    cases hr
  · rw [if_neg hk] at hr
    exact h k r hr

theorem allPatterns_savePatternMetaRow {N : PatternMath} {m : PatternMeta}
    (h : AllPatterns N rows) : AllPatterns N (savePatternMetaRow rows key m) := by
  intro k r hr
  rw [row?_savePatternMetaRow] at hr
  by_cases hk : k = key
  · rw [if_pos hk] at hr
    obtain ⟨r₀, hr₀, hr⟩ := Option.map_eq_some_iff.mp hr
    have hdata := h key r₀ hr₀
    rw [← hr]
    by_cases hempty : m.isEmpty = true
    · rw [if_pos hempty]
      exact hdata
    · rw [if_neg hempty]
      cases hm : m.mirrored r₀.data with
      | none => exact hdata
      | some data' => exact hdata.mirrored hm
  · rw [if_neg hk] at hr
    exact h k r hr

theorem allPatterns_learnRow {svc : LearningService} {run : LearnRun} {c : LearnCall}
    (h : AllPatterns L.toPatternMath rows) :
    AllPatterns L.toPatternMath (learnRow svc L.toPatternMath run c rows) := by
  rw [learnRow]
  cases hkey : learnedKey svc L.toPatternMath run c rows with
  | none => exact h
  | some key =>
      have hscore : 0 ≤ c.evalScore ∧ c.evalScore ≤ 10 := by
        by_contra hscore
        rw [learnedKey, if_pos (Or.inl hscore)] at hkey
        cases hkey
      have hstored : AllPatterns L.toPatternMath (saveRow rows key (learnedDoc svc run c)) :=
        allPatterns_saveRow h (isPattern_learnedDoc hscore)
      dsimp only
      split
      · exact allPatterns_savePatternMetaRow hstored
      · exact hstored

theorem allPatterns_markReusedRow (h : AllPatterns L.toPatternMath rows) :
    AllPatterns L.toPatternMath (markReusedRow L.toPatternMath now key rows) := by
  rw [markReusedRow]
  cases hrow : rows.row? key with
  | none => exact h
  | some r =>
      dsimp only
      cases hp : validate L.toPatternMath now r.data with
      | none => exact h
      | some p =>
          obtain ⟨_, _, _, _, _, hlow, hhigh, hcount⟩ := validate_eq_some_iff.mp hp
          apply allPatterns_saveRow h
          apply isPattern_of_validate now
          apply validate_rewritten
          · constructor
            · apply le_min (by norm_num)
              linarith
            · exact min_le_left _ _
          · exact Int.add_nonneg hcount one_pos.le

theorem round_decayed_bounds (hp : validate L.toPatternMath now data = some p)
    (hkept : ¬ decayedAt L.toPatternMath now p < minScore) :
    0 ≤ L.round (decayedAt L.toPatternMath now p) ∧
      L.round (decayedAt L.toPatternMath now p) ≤ 10 := by
  obtain ⟨_, _, _, _, _, hlow, hhigh, _⟩ := validate_eq_some_iff.mp hp
  have hmin : (0 : ℚ) ≤ minScore := by norm_num [minScore]
  apply L.round_bounds
  · exact hmin.trans (not_lt.mp hkept)
  · exact (L.decayed_le _ _ hlow (le_max_left _ _)).trans hhigh

theorem allPatterns_agedRow (h : AllPatterns L.toPatternMath rows)
    (hp : validate L.toPatternMath now data = some p) :
    AllPatterns L.toPatternMath (agedRow L.toPatternMath now key data p rows) := by
  rw [agedRow]
  by_cases hpruned : decayedAt L.toPatternMath now p < minScore
  · rw [if_pos hpruned]
    exact allPatterns_deleteRow h
  · rw [if_neg hpruned]
    apply allPatterns_saveRow h
    apply isPattern_of_validate now
    exact validate_rewritten (round_decayed_bounds hp hpruned)
      (validate_eq_some_iff.mp hp).2.2.2.2.2.2.2

theorem allPatterns_ageRows (keys : List Text) (h : AllPatterns L.toPatternMath rows) :
    AllPatterns L.toPatternMath (ageRows L.toPatternMath now keys rows) := by
  induction keys generalizing rows with
  | nil => exact h
  | cons key keys ih =>
      rw [ageRows]
      cases hrow : rows.row? key with
      | none => exact ih h
      | some r =>
          dsimp only
          cases hp : validate L.toPatternMath now r.data with
          | none => exact h
          | some p => exact ih (allPatterns_agedRow h hp)

/-- After an import the store has patterns only exactly if it left no other document. -/
theorem allPatterns_importData {N : PatternMath} {records : List ImportRecord} {overwrite : Bool}
    (h : AllPatterns N rows) :
    AllPatterns N (importData records overwrite rows) ↔
      ∀ key data, importedDocument overwrite (importable records) rows key = some data →
        IsPattern N data := by
  constructor
  · intro hall key data hdocument
    have hrow := hall key (MemoryRow.saved (rows.row? key) key data)
      (by rw [importData, row?_importDocuments, hdocument]; rfl)
    rw [MemoryRow.data_saved] at hrow
    exact hrow
  · intro hall key r hr
    rw [importData, row?_importDocuments] at hr
    cases hdocument : importedDocument overwrite (importable records) rows key with
    | none =>
        rw [hdocument] at hr
        exact h key r hr
    | some data =>
        rw [hdocument] at hr
        cases hr
        rw [MemoryRow.data_saved]
        exact hall key data hdocument

theorem allPatterns_applyOp (svc : LearningService) (L : LawfulMath) (rows : MemoryRows)
    (op : PatternOp) (h : AllPatterns L.toPatternMath rows) :
    AllPatterns L.toPatternMath (applyOp svc L.toPatternMath rows op) ↔
      ImportsPatterns L.toPatternMath rows op := by
  cases op with
  | learn run c => exact iff_of_true (allPatterns_learnRow h) trivial
  | importData records overwrite => exact allPatterns_importData h
  | classify key label updates =>
      apply iff_of_true _ trivial
      rw [applyOp]
      split
      · rw [classifyRow]
        split
        · exact allPatterns_savePatternMetaRow h
        · exact h
      · exact h
  | markReused now key => exact iff_of_true (allPatterns_markReusedRow h) trivial
  | runAging now reached => exact iff_of_true (allPatterns_ageRows _ h) trivial

end Writes

section Loop
variable {N : PatternMath} {now : ℚ} {rows : MemoryRows} {key k : Text} {r : MemoryRow}
  {p : PatternDoc}

theorem row?_agedRow (hr : rows.row? key = some r) :
    (agedRow N now key r.data p rows).row? k =
      if k = key then agedRecord N now r p else rows.row? k := by
  rw [agedRow, agedRecord]
  by_cases hpruned : decayedAt N now p < minScore
  · rw [if_pos hpruned, if_pos hpruned]
    exact row?_deleteRow
  · rw [if_neg hpruned, if_neg hpruned, row?_saveRow, hr]
    rfl

theorem agingLoop_rows (keys : List Text) :
    (agingLoop N now keys rows).2 = ageRows N now keys rows := by
  induction keys generalizing rows with
  | nil => rfl
  | cons key keys ih =>
      rw [agingLoop, ageRows]
      cases hrow : rows.row? key with
      | none => exact ih
      | some r =>
          dsimp only
          cases validate N now r.data with
          | none => rfl
          | some p => exact ih

theorem row?_agingLoop_of_notMem {keys : List Text} (hk : k ∉ keys) :
    (agingLoop N now keys rows).2.row? k = rows.row? k := by
  induction keys generalizing rows with
  | nil => rfl
  | cons key keys ih =>
      obtain ⟨hne, hrest⟩ := not_or.mp (fun h => hk (List.mem_cons.mpr h))
      rw [agingLoop]
      cases hrow : rows.row? key with
      | none => exact ih hrest
      | some r =>
          dsimp only
          cases validate N now r.data with
          | none => rfl
          | some p =>
              dsimp only
              rw [ih hrest, row?_agedRow hrow, if_neg hne]

theorem agingLoop_returns_iff {keys : List Text} (hkeys : keys.Nodup) :
    (∃ pruned, (agingLoop N now keys rows).1 = some pruned) ↔
      ∀ key ∈ keys, ∀ r, rows.row? key = some r → ∃ p, validate N now r.data = some p := by
  induction keys generalizing rows with
  | nil => exact iff_of_true ⟨0, rfl⟩ (fun _ h => absurd h List.not_mem_nil)
  | cons key keys ih =>
      obtain ⟨hmem, hkeys⟩ := List.nodup_cons.mp hkeys
      rw [List.forall_mem_cons, agingLoop]
      cases hrow : rows.row? key with
      | none =>
          dsimp only
          rw [ih hkeys]
          exact (and_iff_right (fun r hr => by cases hr)).symm
      | some r =>
          dsimp only
          cases hp : validate N now r.data with
          | none =>
              apply iff_of_false
              · intro h
                obtain ⟨pruned, h⟩ := h
                cases h
              · intro h
                obtain ⟨p, hvalid⟩ := h.1 r rfl
                rw [hp] at hvalid
                cases hvalid
          | some p =>
              dsimp only
              have hothers : ∀ k ∈ keys,
                  (agedRow N now key r.data p rows).row? k = rows.row? k := by
                intro k hk
                rw [row?_agedRow hrow, if_neg]
                intro heq
                exact hmem (heq ▸ hk)
              have hhead : ∀ r', some r = some r' → ∃ p, validate N now r'.data = some p := by
                intro r' hr'
                cases hr'
                exact ⟨p, hp⟩
              rw [and_iff_right hhead]
              have hrest := @ih (agedRow N now key r.data p rows) hkeys
              constructor
              · intro h k hk r' hr'
                obtain ⟨pruned, hpruned⟩ := h
                obtain ⟨after, hafter, _⟩ := Option.map_eq_some_iff.mp hpruned
                exact hrest.mp ⟨after, hafter⟩ k hk r' ((hothers k hk).trans hr')
              · intro h
                obtain ⟨after, hafter⟩ := hrest.mpr fun k hk r' hr' =>
                  h k hk r' ((hothers k hk).symm.trans hr')
                exact ⟨_, by rw [hafter]; rfl⟩

theorem row?_agingLoop_of_mem {keys : List Text} (hkeys : keys.Nodup)
    (hall : ∀ key ∈ keys, ∀ r, rows.row? key = some r → ∃ p, validate N now r.data = some p)
    (hk : k ∈ keys) (hr : rows.row? k = some r) (hp : validate N now r.data = some p) :
    (agingLoop N now keys rows).2.row? k = agedRecord N now r p := by
  induction keys generalizing rows with
  | nil => exact absurd hk List.not_mem_nil
  | cons key keys ih =>
      obtain ⟨hmem, hkeys⟩ := List.nodup_cons.mp hkeys
      rw [List.forall_mem_cons] at hall
      obtain ⟨hhead, hall⟩ := hall
      have hcase : k = key ∨ k ≠ key ∧ k ∈ keys := by
        by_cases heq : k = key
        · exact Or.inl heq
        · exact Or.inr ⟨heq, (List.mem_cons.mp hk).resolve_left heq⟩
      rw [agingLoop]
      cases hcase with
      | inl heq =>
          subst heq
          rw [hr]
          dsimp only
          rw [hp]
          dsimp only
          rw [row?_agingLoop_of_notMem hmem, row?_agedRow hr, if_pos rfl]
      | inr hrest =>
          obtain ⟨hne, hk⟩ := hrest
          cases hrow : rows.row? key with
          | none => exact ih hkeys hall hk hr
          | some r' =>
              obtain ⟨p', hp'⟩ := hhead r' hrow
              dsimp only
              rw [hp']
              dsimp only
              apply ih hkeys
              · intro key' hkey' r'' hr''
                have hne' : key' ≠ key := by
                  intro heq
                  exact hmem (heq ▸ hkey')
                rw [row?_agedRow hrow, if_neg hne'] at hr''
                exact hall key' hkey' r'' hr''
              · exact hk
              · rw [row?_agedRow hrow, if_neg hne]
                exact hr

theorem rowKeys_nodup (collation : Text → Text → Bool) : (rowKeys rows collation).Nodup :=
  (List.mergeSort_perm _ _).nodup_iff.mpr rows.unique

theorem mem_rowKeys (collation : Text → Text → Bool) (hr : rows.row? k = some r) :
    k ∈ rowKeys rows collation := by
  obtain ⟨hmem, hkey⟩ := Table.row?_eq_some.mp hr
  exact (List.mergeSort_perm _ _).mem_iff.mpr (List.mem_map.mpr ⟨r, hmem, hkey⟩)

theorem agingCompletes_iff : AgingCompletes N rows ↔ AllPatterns N rows := by
  constructor
  · intro h key r hr now
    exact (agingLoop_returns_iff (rowKeys_nodup N.collation)).mp (h.returns now) key
      (mem_rowKeys N.collation hr) r hr
  · intro h
    have hall : ∀ now, ∀ key ∈ rowKeys rows N.collation, ∀ r, rows.row? key = some r →
        ∃ p, validate N now r.data = some p := fun now key _ r hr => h key r hr now
    constructor
    · intro now
      exact (agingLoop_returns_iff (rowKeys_nodup N.collation)).mpr (hall now)
    · intro now key r p hr hp
      exact row?_agingLoop_of_mem (rowKeys_nodup N.collation) (hall now)
        (mem_rowKeys N.collation hr) hr hp

end Loop

section Sample

/-- Scores that do not decay. -/
def steadyMath : LawfulMath where
  toPatternMath := plainMath
  float_num _ := rfl
  int_int _ := rfl
  decayed_le _ _ _ _ := le_refl _
  round_bounds _ hlow hhigh := ⟨hlow, hhigh⟩

/-- An empty dict and a pattern that is due to be pruned. -/
def mixedRecords : List ImportRecord :=
  [⟨some (.int 1), some (.str (patternKey "a".toList)), some (.obj [])⟩,
    ⟨some (.int 1), some (.str (patternKey "b".toList)),
      some (.obj [(taskField, .str "sort a list".toList), (designField, .obj []),
        (successScoreField, .num 0)])⟩]

def mixedRows : MemoryRows :=
  exec (applyOp plainService steadyMath.toPatternMath) noRows [.importData mixedRecords false]

theorem mixed_rowKeys : rowKeys mixedRows steadyMath.collation =
    [patternKey "a".toList, patternKey "b".toList] :=
  List.mergeSort_of_pairwise (by decide)

end Sample

end Engramia.Patterns
