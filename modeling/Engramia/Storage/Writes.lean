import Engramia.Storage.JsonStore

/-!
What an undisturbed write, removal or load does, for a file whose directory path
is free of files and whose own names are not directories: one specification for
each, in terms of what stands at every path afterwards.
-/
namespace Engramia.Storage
open Engramia.Library

variable {V F S : Type} {isalnum : Char → Bool} {P : Platform V F S} {s : Scope}
variable {st : JsonStore V F} {dir : Path} {x : Text}

section Calls

theorem change_ok {f : Files V → Except FileError (Files V)} {u : Files V}
    (h : f st.files = .ok u) : change f st = .ok () { st with files := u } := by
  rw [change, h]

theorem change_error {f : Files V → Except FileError (Files V)} {e : FileError}
    (h : f st.files = .error e) : change f st = .error (.file e) st := by
  rw [change, h]

theorem inspect_bind {α β : Type} (f : Files V → α) (g : α → StoreM V F β) :
    (inspect f >>= g) st = g (f st.files) st := rfl

theorem cached_bind {β : Type} (g : Option (Index F) → StoreM V F β) :
    (cached s >>= g) st = g (st.scopeEmbeddings s) st := rfl

end Calls

section Names
variable (dir x)

def dataFile : Path := dir ++ [x ++ jsonSuffix]
def tmpFile : Path := dir ++ [x ++ tmpSuffix]
def bakFile : Path := dir ++ [x ++ bakSuffix]

end Names

theorem withSuffix_tmp (hx : x ≠ []) : withSuffix (dataFile dir x) tmpSuffix = tmpFile dir x :=
  withSuffix_json hx dir tmpSuffix

theorem withSuffix_bak (hx : x ≠ []) : withSuffix (dataFile dir x) bakSuffix = bakFile dir x :=
  withSuffix_json hx dir bakSuffix

theorem sibling_inj {dir' : Path} {n n' : Text} (h : dir ++ [n] = dir' ++ [n']) :
    dir = dir' ∧ n = n' := by
  have h' := List.append_inj' h rfl
  exact ⟨h'.1, List.singleton_inj.mp h'.2⟩

theorem sibling_ne {a b : Text} (h : a ≠ b) : dir ++ [x ++ a] ≠ dir ++ [x ++ b] :=
  fun heq => h (List.append_cancel_left (sibling_inj heq).2)

theorem tmpFile_ne_dataFile : tmpFile dir x ≠ dataFile dir x := sibling_ne (by decide)
theorem bakFile_ne_dataFile : bakFile dir x ≠ dataFile dir x := sibling_ne (by decide)
theorem bakFile_ne_tmpFile : bakFile dir x ≠ tmpFile dir x := sibling_ne (by decide)

theorem dataFile_ne_nil : dataFile dir x ≠ [] :=
  List.append_ne_nil_of_right_ne_nil _ (List.cons_ne_nil _ _)

theorem sibling_not_above (n : Text) : ¬ dir ++ [n] <+: dir := by
  intro h
  have hlen := h.length_le
  rw [List.length_append, List.length_singleton] at hlen
  omega

/-- The directory can be made, and none of the names a write uses is a directory. -/
structure Writable (t : Files V) (dir : Path) (x : Text) : Prop where
  grounded : t.Grounded
  free : ∀ q, q <+: dir → t.isFile q = false
  data : t.node? (dataFile dir x) ≠ some .dir
  tmp : t.node? (tmpFile dir x) ≠ some .dir
  bak : t.node? (bakFile dir x) ≠ some .dir

theorem present_of_file {t : Files V} {p : Path} {n : Node (Doc V)} (h : t.node? p = some n) :
    t.present p = true := by
  rw [FileTree.present, h]
  rfl

theorem file_of_present {t : Files V} {p : Path} (h : t.present p = true)
    (hdir : t.node? p ≠ some .dir) : ∃ c, t.node? p = some (.file c) := by
  rw [FileTree.present] at h
  cases hn : t.node? p with
  | none => rw [hn] at h; cases h
  | some n =>
      cases n with
      | dir => exact absurd hn hdir
      | file c => exact ⟨c, rfl⟩

theorem dir_ne_sibling {n : Text} : dir ≠ dir ++ [n] := by
  intro h
  have hlen := congrArg List.length h
  rw [List.length_append, List.length_singleton] at hlen
  omega

/-- A write makes the directory and fills the temporary file before it moves anything. -/
theorem atomicWrite_staged (hx : x ≠ []) (hw : Writable st.files dir x) (data : V) :
    ∃ t : Files V, t.Grounded ∧
      (∀ q, t.node? q =
        if q = tmpFile dir x then some (.file (.json data))
        else if q <+: dir then some .dir
        else st.files.node? q) ∧
      atomicWrite (dataFile dir x) data st =
        (if t.present (dataFile dir x) then
          (do change (·.replace (dataFile dir x) (bakFile dir x))
              change (·.replace (tmpFile dir x) (dataFile dir x)))
        else change (·.replace (tmpFile dir x) (dataFile dir x)) : StoreM V F Unit)
          { st with files := t } := by
  have hdrop : ∀ n : Text, (dir ++ [n]).dropLast = dir := fun n => List.dropLast_concat
  have htmp : ¬ tmpFile dir x <+: dir := sibling_not_above _
  obtain ⟨t1, h1, hg1, hn1⟩ := FileTree.mkdirs_spec hw.grounded hw.free
  have hdir1 : t1.node? dir = some .dir := by rw [hn1, if_pos (List.prefix_refl _)]
  obtain ⟨t2, h2, hg2, hn2⟩ := FileTree.write_spec (p := tmpFile dir x) (c := Doc.json data)
    hg1 (by rw [tmpFile, hdrop, hdir1]) (by rw [hn1, if_neg htmp]; exact hw.tmp)
  have hwrite : ∀ next : StoreM V F Unit,
      (do change (·.mkdirs (dataFile dir x).dropLast)
          change (·.write (tmpFile dir x) (.json data))
          next) st = next { st with files := t2 } := by
    intro next
    have hmk : st.files.mkdirs (dataFile dir x).dropLast = .ok t1 := by
      rw [dataFile, hdrop, h1]
    rw [bind_ok (change_ok hmk), bind_ok (change_ok h2)]
  refine ⟨t2, hg2, ?_, ?_⟩
  · intro q
    rw [hn2, hn1]
  · rw [atomicWrite, withSuffix_tmp hx, withSuffix_bak hx]
    exact hwrite _

/-- A write puts the document in place, keeps what it displaced under the backup
name and leaves no temporary file. -/
theorem atomicWrite_spec (hx : x ≠ []) (hw : Writable st.files dir x) (data : V) :
    ∃ u, atomicWrite (dataFile dir x) data st = .ok () { st with files := u } ∧
      u.Grounded ∧
      ∀ q, u.node? q =
        if q = dataFile dir x then some (.file (.json data))
        else if q = tmpFile dir x then none
        else if q = bakFile dir x then
          if st.files.present (dataFile dir x) then st.files.node? (dataFile dir x)
          else st.files.node? (bakFile dir x)
        else if q <+: dir then some .dir
        else st.files.node? q := by
  have hdrop : ∀ n : Text, (dir ++ [n]).dropLast = dir := fun n => List.dropLast_concat
  have hdata : ¬ dataFile dir x <+: dir := sibling_not_above _
  have hbak : ¬ bakFile dir x <+: dir := sibling_not_above _
  obtain ⟨t2, hg2, hn2, hprogram⟩ := atomicWrite_staged hx hw data
  have hdir2 : t2.node? dir = some .dir := by
    rw [hn2, tmpFile, if_neg dir_ne_sibling, if_pos (List.prefix_refl _)]
  have hdata2 : t2.node? (dataFile dir x) = st.files.node? (dataFile dir x) := by
    rw [hn2, if_neg tmpFile_ne_dataFile.symm, if_neg hdata]
  have hbak2 : t2.node? (bakFile dir x) = st.files.node? (bakFile dir x) := by
    rw [hn2, if_neg bakFile_ne_tmpFile, if_neg hbak]
  have hpresent : t2.present (dataFile dir x) = st.files.present (dataFile dir x) := by
    rw [FileTree.present, hdata2, FileTree.present]
  have hrest : ∀ q, q ≠ dataFile dir x → q ≠ tmpFile dir x →
      t2.node? q = if q <+: dir then some .dir else st.files.node? q := by
    intro q _ hqt
    rw [hn2, if_neg hqt]
  rw [hprogram]
  by_cases hp : st.files.present (dataFile dir x) = true
  · obtain ⟨c, hc⟩ := file_of_present hp hw.data
    -- the displaced document goes to the backup name
    obtain ⟨t3, h3, hg3, hn3⟩ := FileTree.replace_spec (dataFile dir x) (bakFile dir x) hg2
      (hdata2.trans hc) (by rw [hbak2]; exact hw.bak) (by rw [bakFile, hdrop, hdir2])
    have hdir3 : t3.node? dir = some .dir := by
      rw [hn3, bakFile, dataFile, if_neg dir_ne_sibling, if_neg dir_ne_sibling, hdir2]
    obtain ⟨t4, h4, hg4, hn4⟩ := FileTree.replace_spec (tmpFile dir x) (dataFile dir x)
      (c := Doc.json data) hg3
      (by rw [hn3, if_neg bakFile_ne_tmpFile.symm, if_neg tmpFile_ne_dataFile, hn2, if_pos rfl])
      (by rw [hn3, if_neg bakFile_ne_dataFile.symm, if_pos rfl]; intro h; cases h)
      (by rw [dataFile, hdrop, hdir3])
    refine ⟨t4, ?_, hg4, ?_⟩
    · rw [if_pos (hpresent.trans hp), bind_ok (change_ok h3), change_ok h4]
    · intro q
      rw [hn4, hn3, if_pos hp]
      by_cases hqd : q = dataFile dir x
      · simp only [if_pos hqd]
      · simp only [if_neg hqd]
        by_cases hqt : q = tmpFile dir x
        · simp only [if_pos hqt]
        · simp only [if_neg hqt, hrest q hqd hqt]
          by_cases hqb : q = bakFile dir x
          · simp only [if_pos hqb, hc]
          · simp only [if_neg hqb]
  · obtain ⟨t4, h4, hg4, hn4⟩ := FileTree.replace_spec (tmpFile dir x) (dataFile dir x)
      (c := Doc.json data) hg2 (by rw [hn2, if_pos rfl])
      (by rw [hdata2]; exact hw.data) (by rw [dataFile, hdrop, hdir2])
    refine ⟨t4, ?_, hg4, ?_⟩
    · rw [if_neg (by rw [hpresent]; exact hp), change_ok h4]
    · intro q
      rw [hn4, if_neg hp]
      by_cases hqd : q = dataFile dir x
      · simp only [if_pos hqd]
      · simp only [if_neg hqd]
        by_cases hqt : q = tmpFile dir x
        · simp only [if_pos hqt]
        · simp only [if_neg hqt]
          rw [hrest q hqd hqt]
          by_cases hqb : q = bakFile dir x
          · rw [if_pos hqb, if_neg (by rw [hqb]; exact hbak), hqb]
          · rw [if_neg hqb]

/-- Removing a file that may be missing. -/
theorem unlinkIfPresent_spec (st : JsonStore V F) (p : Path) (hg : st.files.Grounded)
    (hp : st.files.node? p ≠ some .dir) :
    ∃ u, unlinkIfPresent p st = .ok () { st with files := u } ∧ u.Grounded ∧
      ∀ q, u.node? q = if q = p then none else st.files.node? q := by
  rw [unlinkIfPresent, inspect_bind]
  by_cases hpres : st.files.present p = true
  · obtain ⟨c, hc⟩ := file_of_present hpres hp
    obtain ⟨u, hu, hgu, hnu⟩ := FileTree.unlink_spec hg hc
    exact ⟨u, by rw [if_pos hpres, change_ok hu], hgu, hnu⟩
  · refine ⟨st.files, by rw [if_neg hpres]; rfl, hg, ?_⟩
    intro q
    by_cases hq : q = p
    · rw [if_pos hq, hq]
      simpa [FileTree.present] using hpres
    · rw [if_neg hq]

/-- Removing a directory raises. -/
theorem unlinkIfPresent_dir {p : Path} (hp : st.files.node? p = some .dir) :
    unlinkIfPresent p st = .error (.file .isADirectory) st := by
  have herr : st.files.unlink p = .error .isADirectory := by rw [FileTree.unlink, hp]
  rw [unlinkIfPresent, inspect_bind, if_pos (present_of_file hp), change_error herr]

theorem writable_empty : Writable (.empty : Files V) dir x := by
  have hnode : ∀ n : Text, FileTree.node? (.empty : Files V) (dir ++ [n]) = none := by
    intro n
    rw [FileTree.node?_of_ne_nil (List.append_ne_nil_of_right_ne_nil _ (List.cons_ne_nil _ _))]
    rfl
  refine ⟨FileTree.grounded_empty, ?_, ?_, ?_, ?_⟩
  · intro q _
    rw [FileTree.isFile]
    cases q with
    | nil => rfl
    | cons y q => rfl
  · rw [dataFile, hnode]
    intro h
    cases h
  · rw [tmpFile, hnode]
    intro h
    cases h
  · rw [bakFile, hnode]
    intro h
    cases h

section Keys
variable {key : Text} {path : Path}
variable (hpath : keyToPath (effectiveRoot isalnum s) key = some path)
include hpath

theorem pathOfKey_bind {α : Type} (f : Path → StoreM V F α) :
    (pathOfKey isalnum s key >>= f) st = f path st := by
  rw [pathOfKey, hpath]
  rfl

theorem save_eq (data : V) : save isalnum s key data st = atomicWrite path data st :=
  pathOfKey_bind hpath _

theorem load_json {v : V} (hv : st.files.node? path = some (.file (.json v))) :
    load isalnum s key st = .ok (some v) st := by
  have hread : st.files.read path = .ok (.json v) := by rw [FileTree.read, hv]
  have hopen : openRead path st = .ok (.json v) st := by rw [openRead, hread]
  rw [load, pathOfKey_bind hpath, inspect_bind, if_pos (present_of_file hv), bind_ok hopen]
  rfl

theorem load_missing (hv : st.files.node? path = none) :
    load isalnum s key st = .ok none st := by
  have hpres : ¬ st.files.present path = true := by
    rw [FileTree.present, hv]
    exact Bool.false_ne_true
  rw [load, pathOfKey_bind hpath, inspect_bind, if_neg hpres]
  rfl

end Keys

/-- Deleting raises where one of the working files is a directory. -/
theorem delete_raises (P : Platform V F S) (st : JsonStore V F) {key : Text}
    (hpath : keyToPath (effectiveRoot isalnum s) key = some (dataFile dir x)) (hx : x ≠ [])
    (hg : st.files.Grounded)
    (hdir : st.files.node? (tmpFile dir x) = some .dir ∨
      st.files.node? (bakFile dir x) = some .dir) :
    outcome (perform isalnum P (s, .delete key) st) ≠ .ok .done := by
  have herror : ∀ {st' : JsonStore V F} {e : StorageError},
      delete isalnum P s key st = .error e st' →
      outcome (perform isalnum P (s, .delete key) st) ≠ .ok .done := by
    intro st' e he
    have hperform : perform isalnum P (s, .delete key) st = .error e st' := bind_error he
    rw [hperform]
    intro h
    cases h
  have hdelete : delete isalnum P s key st =
      (do unlinkIfPresent (dataFile dir x)
          unlinkIfPresent (bakFile dir x)
          unlinkIfPresent (tmpFile dir x)
          let embeddings ← getEmbeddings isalnum P s
          if (embeddings.get? key).isSome then
            saveEmbeddingsIndex isalnum P s (embeddings.discard (· = key))) st := by
    rw [delete, pathOfKey_bind hpath, withSuffix_bak hx, withSuffix_tmp hx]
  by_cases h1 : st.files.node? (dataFile dir x) = some .dir
  · exact herror (hdelete.trans (bind_error (unlinkIfPresent_dir h1)))
  · obtain ⟨u1, hu1, hg1, hn1⟩ := unlinkIfPresent_spec st (dataFile dir x) hg h1
    rw [bind_ok hu1] at hdelete
    by_cases h2 : st.files.node? (bakFile dir x) = some .dir
    · have h2' : FileTree.node? ({ st with files := u1 } : JsonStore V F).files (bakFile dir x) =
          some .dir := by
        show u1.node? _ = _
        rw [hn1, if_neg bakFile_ne_dataFile, h2]
      exact herror (hdelete.trans (bind_error (unlinkIfPresent_dir h2')))
    · obtain ⟨u2, hu2, -, hn2⟩ := unlinkIfPresent_spec { st with files := u1 } (bakFile dir x) hg1
        (by rw [hn1, if_neg bakFile_ne_dataFile]; exact h2)
      rw [bind_ok hu2] at hdelete
      have h3 : FileTree.node? ({ st with files := u2 } : JsonStore V F).files (tmpFile dir x) =
          some .dir := by
        show u2.node? _ = _
        rw [hn2, if_neg bakFile_ne_tmpFile.symm, hn1, if_neg tmpFile_ne_dataFile]
        exact hdir.resolve_right h2
      exact herror (hdelete.trans (bind_error (unlinkIfPresent_dir h3)))

/-- The first save into a new store. -/
theorem save_newStore (isalnum : Char → Bool) (P : Platform V F S) (s : Scope) (v : V)
    {key : Text} (hpath : keyToPath (effectiveRoot isalnum s) key = some (dataFile dir x))
    (hx : x ≠ []) :
    ∃ u, perform isalnum P (s, .save key v) newStore =
        .ok .done { (newStore : JsonStore V F) with files := u } ∧ u.Grounded ∧
      ∀ q, q ≠ [] → u.node? q =
        if q = dataFile dir x then some (.file (.json v))
        else if q <+: dir then some .dir else none := by
  have hw : Writable (newStore : JsonStore V F).files dir x := writable_empty
  have hempty : ∀ q, q ≠ [] → (newStore : JsonStore V F).files.node? q = none :=
    fun q hq => FileTree.node?_of_ne_nil hq
  have habsent : ¬ (newStore : JsonStore V F).files.present (dataFile dir x) = true := by
    rw [FileTree.present, hempty _ dataFile_ne_nil]
    exact Bool.false_ne_true
  obtain ⟨u, hu, hg, hnode⟩ := atomicWrite_spec hx hw v
  refine ⟨u, bind_ok ((save_eq hpath v).trans hu), hg, ?_⟩
  intro q hq
  rw [hnode, if_neg habsent]
  by_cases hqd : q = dataFile dir x
  · rw [if_pos hqd, if_pos hqd]
  · rw [if_neg hqd, if_neg hqd, hempty q hq]
    by_cases hqt : q = tmpFile dir x
    · rw [if_pos hqt, if_neg (by rw [hqt]; exact sibling_not_above _)]
    · rw [if_neg hqt]
      by_cases hqb : q = bakFile dir x
      · rw [if_pos hqb, ← hqb, hempty q hq, if_neg (by rw [hqb]; exact sibling_not_above _)]
      · rw [if_neg hqb]

theorem mem_keysBelow {root : Path} {keyPrefix key : Text} {files : Files V} :
    key ∈ keysBelow root keyPrefix files ↔
      keyPrefix <+: key ∧ ∃ q, q ≠ [] ∧ files.node? (root ++ q) ≠ none ∧
        listed q = true ∧ pathToKey q = key := by
  rw [keysBelow, List.mem_insertionSort, List.mem_filter, List.isPrefixOf_iff_prefix,
    List.mem_map]
  constructor
  · intro h
    obtain ⟨⟨q, hq, hkey⟩, hpre⟩ := h
    obtain ⟨hbelow, hlisted⟩ := List.mem_filter.mp hq
    have hmem := FileTree.mem_below.mp hbelow
    exact ⟨hpre, q, hmem.1, hmem.2, hlisted, hkey⟩
  · intro h
    obtain ⟨hpre, q, hq, hn, hlisted, hkey⟩ := h
    exact ⟨⟨q, List.mem_filter.mpr ⟨FileTree.mem_below.mpr ⟨hq, hn⟩, hlisted⟩, hkey⟩, hpre⟩

theorem sorted_keysBelow (root : Path) (keyPrefix : Text) (files : Files V) :
    (keysBelow root keyPrefix files).Pairwise (· ≤ ·) :=
  List.pairwise_insertionSort _ _

/-- Nothing is listed twice where the listed paths have different keys. -/
theorem nodup_keysBelow {root : Path} {keyPrefix : Text} {files : Files V}
    (hinj : ∀ q ∈ files.below root, ∀ q' ∈ files.below root, listed q = true → listed q' = true →
      pathToKey q = pathToKey q' → q = q') :
    (keysBelow root keyPrefix files).Nodup := by
  rw [keysBelow, (List.perm_insertionSort _ _).nodup_iff]
  apply List.Nodup.filter
  apply List.Nodup.map_on
  · intro q hq q' hq' h
    have hq := List.mem_filter.mp hq
    have hq' := List.mem_filter.mp hq'
    exact hinj q hq.1 q' hq'.1 hq.2 hq'.2 h
  · exact (FileTree.nodup_below root).filter _

theorem listKeys_eq {keyPrefix : Text} {u : Files V}
    (h : st.files.mkdirs (effectiveRoot isalnum s) = .ok u) :
    listKeys isalnum s keyPrefix st =
      .ok (keysBelow (effectiveRoot isalnum s) keyPrefix u) { st with files := u } := by
  rw [listKeys, bind_ok (change_ok h)]
  rfl

end Engramia.Storage
