import Engramia.Storage.Writes

/-!
Which keys survive the mapping to paths. A plain key is spelled as its path is:
it has no backslash, no empty segment and no segment of dots, and its last
segment neither has a suffix, which the mapping would replace, nor starts with an
underscore, which listing passes over. Plain keys are exactly those the listing
reports as they were saved.
-/
namespace Engramia.Storage
open Engramia.Library

section Splitting

/-- A part holds no separator, and nothing the text does not hold. -/
theorem mem_splitOn {c : Char} {text part : Text} (h : part ∈ text.splitOn c) :
    c ∉ part ∧ ∀ d ∈ part, d ∈ text := by
  induction text generalizing part with
  | nil =>
      rw [List.splitOn_nil, List.mem_singleton] at h
      rw [h]
      exact ⟨List.not_mem_nil, fun d hd => hd⟩
  | cons x text ih =>
      rw [List.splitOn_cons_eq_if_modifyHead] at h
      by_cases hx : (x == c) = true
      · rw [if_pos hx] at h
        cases List.mem_cons.mp h with
        | inl h => rw [h]; exact ⟨List.not_mem_nil, fun d hd => absurd hd List.not_mem_nil⟩
        | inr h => exact ⟨(ih h).1, fun d hd => List.mem_cons_of_mem x ((ih h).2 d hd)⟩
      · rw [if_neg hx] at h
        cases hs : text.splitOn c with
        | nil => exact absurd hs (List.splitOn_ne_nil c text)
        | cons first rest =>
            rw [hs, List.modifyHead_cons] at h
            cases List.mem_cons.mp h with
            | inl h =>
                have hfirst := ih (by rw [hs]; exact List.mem_cons_self)
                rw [h]
                constructor
                · intro hmem
                  cases List.mem_cons.mp hmem with
                  | inl hc => exact hx (by rw [hc]; exact beq_self_eq_true x)
                  | inr hc => exact hfirst.1 hc
                · intro d hd
                  cases List.mem_cons.mp hd with
                  | inl hc => rw [hc]; exact List.mem_cons_self
                  | inr hc => exact List.mem_cons_of_mem x (hfirst.2 d hc)
            | inr h =>
                have hrest := ih (by rw [hs]; exact List.mem_cons_of_mem _ h)
                exact ⟨hrest.1, fun d hd => List.mem_cons_of_mem x (hrest.2 d hd)⟩

theorem slashes_of_not_mem {text : Text} (h : '\\' ∉ text) : slashes text = text := by
  have hid : ∀ c ∈ text, (if c = '\\' then '/' else c) = id c := by
    intro c hc
    have hne : c ≠ '\\' := fun heq => h (heq ▸ hc)
    rw [if_neg hne]
    rfl
  rw [slashes, List.map_congr_left hid, List.map_id]

theorem not_mem_slashes (text : Text) : '\\' ∉ slashes text := by
  intro h
  obtain ⟨c, -, hc⟩ := List.mem_map.mp h
  by_cases hb : c = '\\'
  · rw [if_pos hb] at hc
    exact absurd hc (by decide)
  · rw [if_neg hb] at hc
    exact hb hc

theorem mem_intercalate {c d : Char} {names : List Text} (h : c ∈ [d].intercalate names) :
    c = d ∨ ∃ n ∈ names, c ∈ n := by
  induction names with
  | nil => cases h
  | cons n names ih =>
      cases names with
      | nil => exact .inr ⟨n, List.mem_cons_self, by rwa [List.intercalate_singleton] at h⟩
      | cons m names =>
          rw [List.intercalate_cons_cons, List.append_assoc] at h
          cases List.mem_append.mp h with
          | inl h => exact .inr ⟨n, List.mem_cons_self, h⟩
          | inr h =>
              cases List.mem_cons.mp h with
              | inl h => exact .inl h
              | inr h =>
                  cases ih h with
                  | inl h => exact .inl h
                  | inr h =>
                      obtain ⟨n', hn', hc⟩ := h
                      exact .inr ⟨n', List.mem_cons_of_mem n hn', hc⟩

/-- A name that can stand between slashes. -/
def CleanName (name : Text) : Prop :=
  '/' ∉ name ∧ '\\' ∉ name

theorem cleanName_of_mem_keyParts {key name : Text} (h : name ∈ keyParts key) :
    CleanName name := by
  have hmem := mem_splitOn (List.mem_filter.mp h).1
  exact ⟨hmem.1, fun hb => not_mem_slashes key (hmem.2 _ hb)⟩

theorem CleanName.stem {name : Text} (h : CleanName name) : CleanName (stem name) :=
  ⟨fun hs => h.1 (List.mem_of_mem_take hs), fun hs => h.2 (List.mem_of_mem_take hs)⟩

/-- The key of a path of clean names splits into the names again. -/
theorem splitOn_pathToKey {dir : Path} {x : Text} (hdir : ∀ n ∈ dir, CleanName n)
    (hx : CleanName x) : (pathToKey (dir ++ [x])).splitOn '/' = dir ++ [stem x] := by
  have hclean : ∀ n ∈ dir ++ [stem x], CleanName n := by
    intro n hn
    cases List.mem_append.mp hn with
    | inl hn => exact hdir n hn
    | inr hn => rw [List.mem_singleton.mp hn]; exact hx.stem
  have hback : '\\' ∉ ['/'].intercalate (dir ++ [stem x]) := by
    intro hmem
    cases mem_intercalate hmem with
    | inl h => exact absurd h (by decide)
    | inr h =>
        obtain ⟨n, hn, hb⟩ := h
        exact (hclean n hn).2 hb
  rw [pathToKey, withSuffix_append_singleton, List.append_nil, slashes_of_not_mem hback,
    List.splitOn_intercalate '/' (fun n hn => (hclean n hn).1)
      (List.append_ne_nil_of_right_ne_nil _ (List.cons_ne_nil _ _))]

end Splitting

/-- The directory and the name a key spells. -/
def keyDir (key : Text) : Path := (key.splitOn '/').dropLast
def keyName (key : Text) : Text := (key.splitOn '/').getLastD []

theorem splitOn_eq (key : Text) : key.splitOn '/' = keyDir key ++ [keyName key] :=
  split_last (List.splitOn_ne_nil '/' key)

/-- A segment that is not dropped. -/
def Kept (segment : Text) : Prop :=
  segment ≠ [] ∧ segment.all (· = '.') = false

instance (segment : Text) : Decidable (Kept segment) :=
  inferInstanceAs (Decidable (_ ∧ _))

/-- A key that is spelled as its path is. -/
structure PlainKey (key : Text) : Prop where
  noBackslash : '\\' ∉ key
  kept : ∀ segment ∈ key.splitOn '/', Kept segment
  noSuffix : suffix (keyName key) = []
  noUnderscore : (keyName key).head? ≠ some '_'

section Plain
variable {key : Text}

theorem PlainKey.keyParts_eq (h : PlainKey key) : keyParts key = keyDir key ++ [keyName key] := by
  rw [keyParts, slashes_of_not_mem h.noBackslash, ← splitOn_eq, List.filter_eq_self]
  intro segment hmem
  have hkept := h.kept segment hmem
  simp [hkept.1, hkept.2]

theorem PlainKey.keyName_ne_nil (h : PlainKey key) : keyName key ≠ [] :=
  (h.kept (keyName key) (by rw [splitOn_eq]; simp)).1

theorem PlainKey.keyToPath_eq (h : PlainKey key) (root : Path) :
    keyToPath root key = some (dataFile (root ++ keyDir key) (keyName key)) := by
  rw [keyToPath, h.keyParts_eq,
    if_neg (List.append_ne_nil_of_right_ne_nil _ (List.cons_ne_nil _ _)),
    ← List.append_assoc, withSuffix_append_singleton, stem_of_suffix_nil h.noSuffix]
  rfl

theorem listed_dataFile {dir : Path} {x : Text} (hx : x ≠ []) :
    listed (dataFile dir x) = true ↔ x.head? ≠ some '_' := by
  cases x with
  | nil => exact absurd rfl hx
  | cons c x =>
      have hsuffix : jsonSuffix.isSuffixOf (c :: x ++ jsonSuffix) = true := by
        rw [List.isSuffixOf_iff_suffix]
        exact List.suffix_append _ _
      rw [listed, dataFile, List.getLastD_concat, hsuffix]
      simp

theorem PlainKey.listed (h : PlainKey key) : listed (dataFile (keyDir key) (keyName key)) = true :=
  (listed_dataFile h.keyName_ne_nil).mpr h.noUnderscore

theorem pathToKey_dataFile {dir : Path} {x : Text} (hx : x ≠ []) :
    pathToKey (dataFile dir x) = slashes (['/'].intercalate (dir ++ [x])) := by
  rw [pathToKey, dataFile, withSuffix_json hx, List.append_nil]

theorem PlainKey.pathToKey_eq (h : PlainKey key) :
    pathToKey (dataFile (keyDir key) (keyName key)) = key := by
  rw [pathToKey_dataFile h.keyName_ne_nil, ← splitOn_eq, List.intercalate_splitOn,
    slashes_of_not_mem h.noBackslash]

theorem PlainKey.inj {key' : Text} (h : PlainKey key) (h' : PlainKey key') {root : Path}
    (heq : dataFile (root ++ keyDir key) (keyName key) =
      dataFile (root ++ keyDir key') (keyName key')) : key = key' := by
  rw [dataFile, dataFile, List.append_assoc, List.append_assoc] at heq
  rw [← h.pathToKey_eq, ← h'.pathToKey_eq, dataFile, dataFile, List.append_cancel_left heq]

theorem plainKey_of_reported {x : Text} (hx : x = stem ((keyParts key).getLastD []))
    (hparts : keyParts key ≠ []) (hxne : x ≠ [])
    (hlisted : Storage.listed (dataFile (keyParts key).dropLast x) = true)
    (hkey : pathToKey (dataFile (keyParts key).dropLast x) = key) : PlainKey key := by
  have hsplitParts := split_last hparts
  have hlastMem := last_mem hparts
  have hclean : CleanName x := hx ▸ (cleanName_of_mem_keyParts hlastMem).stem
  have hcleanDir : ∀ n ∈ (keyParts key).dropLast, CleanName n :=
    fun n hn => cleanName_of_mem_keyParts (List.mem_of_mem_dropLast hn)
  have hback : '\\' ∉ key := by
    rw [← hkey, pathToKey]
    exact not_mem_slashes _
  have hcleanFile : CleanName (x ++ jsonSuffix) := by
    constructor
    · intro hmem
      cases List.mem_append.mp hmem with
      | inl hmem => exact hclean.1 hmem
      | inr hmem => exact absurd hmem (by decide)
    · intro hmem
      cases List.mem_append.mp hmem with
      | inl hmem => exact hclean.2 hmem
      | inr hmem => exact absurd hmem (by decide)
  have hstem : stem (x ++ jsonSuffix) = x :=
    stem_append hxne (List.cons_ne_nil _ _) (by decide)
  have hsplit : key.splitOn '/' = (keyParts key).dropLast ++ [x] := by
    rw [← hstem, ← splitOn_pathToKey hcleanDir hcleanFile]
    exact congrArg (List.splitOn '/') hkey.symm
  have hfilter : keyParts key = (key.splitOn '/').filter fun p => p ≠ [] && !p.all (· = '.') := by
    rw [keyParts, slashes_of_not_mem hback]
  -- as many segments are kept as there are
  have hall : (key.splitOn '/').filter (fun p => p ≠ [] && !p.all (· = '.')) =
      key.splitOn '/' := by
    apply List.filter_sublist.eq_of_length
    rw [← hfilter, hsplit, hsplitParts, List.length_append, List.length_append,
      List.dropLast_concat]
    rfl
  have hlast : (keyParts key).getLastD [] = x := by
    rw [hfilter, hall, hsplit, List.getLastD_concat]
  have hname : keyName key = x := by rw [keyName, hsplit, List.getLastD_concat]
  refine ⟨hback, ?_, ?_, ?_⟩
  · intro segment hmem
    have hkept := List.filter_eq_self.mp hall segment hmem
    simpa [Kept] using hkept
  · rw [hname]
    rw [hlast] at hx
    exact suffix_of_stem_eq hx.symm
  · rw [hname]
    exact (listed_dataFile hxne).mp hlisted

end Plain

end Engramia.Storage
