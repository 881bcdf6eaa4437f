import Engramia.Storage.DeleteScope

/-!
When deleting a scope is exact. The listing passes over documents, the keys it reports may
lead elsewhere, and a directory may be listed like a document, so the condition says what the
entries of the scope are like. The default scope lists what all other scopes saved; a scope
other than the default one is deleted exactly where there is nothing to delete.
-/
namespace Engramia.Storage
open Engramia.Library

variable {V F S : Type} {isalnum : Char → Bool} {P : Platform V F S} {s : Scope}
variable {st st' : JsonStore V F}

section Entries
variable {root : Path} {t : Files V} {q : Path}

theorem mem_keys {key : Text} :
    key ∈ keysBelow root [] t ↔ ∃ q, Entry root t q ∧ pathToKey q = key := by
  rw [mem_keysBelow]
  constructor
  · intro h
    obtain ⟨_, q, hq, hnode, hlisted, hkey⟩ := h
    exact ⟨q, ⟨hq, hnode, hlisted⟩, hkey⟩
  · intro h
    obtain ⟨q, hentry, hkey⟩ := h
    exact ⟨List.nil_prefix, q, hentry.1, hentry.2.1, hentry.2.2, hkey⟩

theorem keys_eq_nil : keysBelow root [] t = [] ↔ ∀ q, ¬ Entry root t q := by
  rw [List.eq_nil_iff_forall_not_mem]
  constructor
  · intro h q hentry
    exact h _ (mem_keys.mpr ⟨q, hentry, rfl⟩)
  · intro h key hkey
    obtain ⟨q, hentry, _⟩ := mem_keys.mp hkey
    exact h q hentry

theorem Entry.lift (h : Entry root t q) : Entry [] t (root ++ q) := by
  refine ⟨List.append_ne_nil_of_right_ne_nil _ h.1, h.2.1, ?_⟩
  have hlast : (root ++ q).getLastD [] = q.getLastD [] := by
    rw [List.getLastD_eq_getLast?, List.getLastD_eq_getLast?, List.getLast?_append_of_ne_nil _ h.1]
  have hlisted := h.2.2
  rwa [listed, ← hlast] at hlisted

theorem Entry.drop (h : Entry [] t q) (hq : root <+: q) (hne : q ≠ root) :
    ∃ q', Entry root t q' ∧ q = root ++ q' := by
  obtain ⟨q', rfl⟩ := hq
  have hq' : q' ≠ [] := fun hnil => hne (by rw [hnil, List.append_nil])
  have hlast : (root ++ q').getLastD [] = q'.getLastD [] := by
    rw [List.getLastD_eq_getLast?, List.getLastD_eq_getLast?, List.getLast?_append_of_ne_nil _ hq']
  have hlisted := h.2.2
  rw [listed, hlast] at hlisted
  exact ⟨q', ⟨hq', h.2.1, hlisted⟩, rfl⟩

theorem listed_not_index (h : listed q = true) : q ∉ indexFiles [] := by
  have hnot : ∀ q ∈ indexFiles [], listed q = false := by decide
  intro hmem
  rw [hnot q hmem] at h
  cases h

/-- A document other than the index is none of the files that the index is written through. -/
theorem document_not_index {key : Text} {path : Path} (hpath : keyToPath root key = some path)
    (hne : path ≠ dataFile [] embeddingsName) : path ∉ indexFiles [] := by
  obtain ⟨x, _, rfl, _⟩ := keyToPath_eq_some hpath
  have hsuffix : ∀ q ∈ indexFiles [], q ≠ dataFile [] embeddingsName →
      jsonSuffix.isSuffixOf (q.getLastD []) = false := by decide
  intro hmem
  have hnot := hsuffix _ hmem hne
  rw [List.getLastD_concat, ← Bool.not_eq_true, List.isSuffixOf_iff_suffix] at hnot
  exact hnot (List.suffix_append _ _)

theorem mem_workFiles_self {key : Text} {path : Path} (hpath : keyToPath root key = some path) :
    path ∈ workFiles path := by
  obtain ⟨x, hx, rfl, _⟩ := keyToPath_eq_some hpath
  rw [← dataFile, workFiles_dataFile hx]
  exact List.mem_cons_self

/-- The files of a key lie in one directory, under names with a dot. -/
theorem mem_workFiles {path : Path} (h : q ∈ workFiles path) :
    q.dropLast = path.dropLast ∧ '.' ∈ q.getLastD [] := by
  obtain ⟨ext, hext, rfl⟩ := List.mem_map.mp h
  rw [withSuffix, List.dropLast_concat, List.getLastD_concat]
  exact ⟨rfl, dot_mem_append_suffix hext⟩

/-- A path whose last name is none of a directory's is not on the way to one. -/
theorem not_prefix_of_dot {dir p : Path} (hp : p ≠ []) (hdot : '.' ∈ p.getLastD [])
    (hdir : ∀ n ∈ dir, '.' ∉ n) : ¬ p <+: dir := by
  intro hle
  exact hdir _ (hle.subset (last_mem hp)) hdot

end Entries

section Names
variable {q : Path}

theorem Tidy.dirName (h : Tidy st) (hq : st.files.node? q ≠ none) {n : Text}
    (hn : n ∈ q.dropLast) : DirName n := by
  obtain ⟨a, b, hsplit⟩ := List.append_of_mem hn
  have hle : a ++ [n] <+: q.dropLast := ⟨b, by rw [hsplit, List.append_assoc]; rfl⟩
  have hne : a ++ [n] ≠ q := by
    intro heq
    have hlen := hle.length_le
    rw [heq, List.length_dropLast] at hlen
    have hpos : 0 < q.length := by
      rw [← heq, List.length_append]
      exact Nat.succ_pos _
    omega
  have hdir := h.files.grounded q _ (FileTree.present_iff.mpr hq)
    (hle.trans (List.dropLast_prefix q)) hne
  have hname :=
    (h.files.dirs _ (List.append_ne_nil_of_right_ne_nil _ (List.cons_ne_nil _ _)) hdir).1
  rwa [List.getLastD_concat] at hname

theorem FilePath.cleanName (h : FilePath q) : CleanName (q.getLastD []) := by
  obtain ⟨dir, x, ext, _, hclean, hext, rfl⟩ := h
  have hsuffix : ∀ e ∈ fileSuffixes, '/' ∉ e ∧ '\\' ∉ e := by decide
  rw [List.getLastD_concat]
  exact ⟨fun hmem => (List.mem_append.mp hmem).elim hclean.1 (hsuffix ext hext).1,
    fun hmem => (List.mem_append.mp hmem).elim hclean.2 (hsuffix ext hext).2⟩

theorem Tidy.cleanLast (h : Tidy st) (hq : q ≠ []) (hnode : st.files.node? q ≠ none) :
    CleanName (q.getLastD []) := by
  cases hn : st.files.node? q with
  | none => exact absurd hn hnode
  | some n =>
      cases n with
      | dir => exact (h.files.dirs q hq hn).1.1
      | file c => exact (h.files.files q c hn).cleanName

theorem splitOn_key (h : Tidy st) (hq : q ≠ []) (hnode : st.files.node? q ≠ none) :
    (pathToKey q).splitOn '/' = q.dropLast ++ [stem (q.getLastD [])] := by
  have hsplit := splitOn_pathToKey (fun n hn => (h.dirName hnode hn).1) (h.cleanLast hq hnode)
  rwa [← split_last hq] at hsplit

theorem dropLast_of_pathToKey (h : Tidy st) (h' : Tidy st') {q' : Path}
    (hq : Entry [] st.files q) (hq' : Entry [] st'.files q')
    (hkey : pathToKey q' = pathToKey q) : q'.dropLast = q.dropLast := by
  have hnames := (splitOn_key h' hq'.1 hq'.2.1).symm.trans
    ((congrArg _ hkey).trans (splitOn_key h hq.1 hq.2.1))
  exact (sibling_inj hnames).1

/-- The key of an entry leads to a path in the directory of the entry, or above it. -/
theorem led_above (h : Tidy st) (hq : Entry [] st.files q) {path : Path}
    (hpath : keyToPath [] (pathToKey q) = some path) : path.dropLast <+: q.dropLast := by
  have hkept : q.dropLast.filter (fun p => p ≠ [] && !p.all (· = '.')) = q.dropLast := by
    rw [List.filter_eq_self]
    intro n hn
    have hname := (h.dirName hq.2.1 hn).2
    simp [hname.1, hname.2]
  have hparts : keyParts (pathToKey q) = q.dropLast ++
      [stem (q.getLastD [])].filter fun p => p ≠ [] && !p.all (· = '.') := by
    have hslashes : slashes (pathToKey q) = pathToKey q := slashes_of_not_mem (not_mem_slashes _)
    rw [keyParts, hslashes, splitOn_key h hq.1 hq.2.1, List.filter_append, hkept]
  obtain ⟨x, _, rfl, _⟩ := keyToPath_eq_some hpath
  rw [List.dropLast_concat, List.nil_append, hparts]
  cases hlast : [stem (q.getLastD [])].filter fun p => p ≠ [] && !p.all (· = '.') with
  | nil =>
      rw [List.append_nil]
      exact List.dropLast_prefix _
  | cons n rest =>
      have hrest : rest = [] := by
        have hlen := List.length_filter_le (fun p : Text => p ≠ [] && !p.all (· = '.'))
          [stem (q.getLastD [])]
        rw [hlast, List.length_cons, List.length_singleton] at hlen
        exact List.length_eq_zero_iff.mp (by omega)
      rw [hrest, List.dropLast_concat]

end Names

section Directories

theorem Tidy.free (hsep : Separated isalnum) (h : Tidy st) {q : Path}
    (hq : q <+: effectiveRoot isalnum s) : st.files.isFile q = false := by
  rw [← Bool.not_eq_true]
  intro hfile
  rw [FileTree.isFile] at hfile
  cases hn : st.files.node? q with
  | none => rw [hn] at hfile; cases hfile
  | some n =>
      cases n with
      | dir => rw [hn] at hfile; cases hfile
      | file c =>
          obtain ⟨dir, x, ext, _, _, hext, rfl⟩ := h.files.files q c hn
          apply not_prefix_of_dot _ _ (fun n hn => dotless_of_mem_root hsep hn) hq
          · exact List.append_ne_nil_of_right_ne_nil _ (List.cons_ne_nil _ _)
          · rw [List.getLastD_concat]
            exact dot_mem_append_suffix hext

/-- The directory of a scope can be made, and no scope notices. -/
theorem mkdirs_root (hsep : Separated isalnum) (h : Tidy st) (s : Scope) :
    ∃ u, st.files.mkdirs (effectiveRoot isalnum s) = .ok u ∧
      ∀ s', SameReads isalnum s' st { st with files := u } := by
  obtain ⟨u, hu, _, hnode⟩ := FileTree.mkdirs_spec h.files.grounded fun q hq => h.free hsep hq
  refine ⟨u, hu, fun s' => ⟨?_, ?_, rfl⟩⟩
  · intro dir n hdot _
    apply (hnode _).trans
    rw [if_neg]
    apply not_prefix_of_dot _ _ fun n hn => dotless_of_mem_root hsep hn
    · exact List.append_ne_nil_of_right_ne_nil _ (List.cons_ne_nil _ _)
    · rwa [List.getLastD_concat]
  · intro q _
    have hfile : FileTree.isFile u q = st.files.isFile q := by
      by_cases hq : q <+: effectiveRoot isalnum s
      · rw [h.free hsep hq, FileTree.isFile, hnode, if_pos hq]
      · rw [FileTree.isFile, FileTree.isFile, hnode, if_neg hq]
    exact hfile

theorem SameReads.entry_iff (h : SameReads isalnum s st st') (q : Path) :
    Entry (effectiveRoot isalnum s) st'.files q ↔ Entry (effectiveRoot isalnum s) st.files q := by
  apply and_congr_right
  intro hq
  rw [and_congr_left_iff]
  intro hlisted
  have hnode := h.nodes (effectiveRoot isalnum s ++ q.dropLast) (q.getLastD [])
    (dot_of_listed hlisted) (List.prefix_append _ _)
  rw [List.append_assoc, ← split_last hq] at hnode
  rw [hnode]

theorem SameReads.document (h : SameReads isalnum s st st') {key : Text} {path : Path}
    (hpath : keyToPath (effectiveRoot isalnum s) key = some path) :
    st'.files.isFile path = st.files.isFile path := by
  obtain ⟨x, _, rfl, _⟩ := keyToPath_eq_some hpath
  have hjson : jsonSuffix ∈ fileSuffixes := by decide
  rw [FileTree.isFile, FileTree.isFile,
    h.nodes _ _ (dot_mem_append_suffix hjson) (List.prefix_append _ _)]

/-- What the call runs through, once the directory of the scope was made. -/
theorem deleteScope_eq {u : Files V} (hu : st.files.mkdirs (effectiveRoot isalnum s) = .ok u)
    (h : SameReads isalnum s st { st with files := u }) :
    deleteScope isalnum P s st =
      (do (keysBelow (effectiveRoot isalnum s) [] st.files).forM (delete isalnum P s)
          return (keysBelow (effectiveRoot isalnum s) [] st.files).length)
        { st with files := u } := by
  have hkeys : keysBelow (effectiveRoot isalnum s) [] u =
      keysBelow (effectiveRoot isalnum s) [] st.files := keysBelow_congr h.entry_iff
  rw [deleteScope, bind_ok (listKeys_eq hu), hkeys]

/-- A listing that returns the same keys finds an entry for each. -/
theorem entry_of_listKeys (hsep : Separated isalnum) (h : Tidy st) (h' : Tidy st')
    (hlist : outcome (perform isalnum P (s, .listKeys []) st') =
      outcome (perform isalnum P (s, .listKeys []) st)) {q : Path}
    (hq : Entry (effectiveRoot isalnum s) st.files q) :
    ∃ q', Entry (effectiveRoot isalnum s) st'.files q' ∧ pathToKey q' = pathToKey q := by
  have houtcome : ∀ {st : JsonStore V F}, Tidy st →
      outcome (perform isalnum P (s, .listKeys []) st) =
        .ok (.keys (keysBelow (effectiveRoot isalnum s) [] st.files)) := by
    intro st h
    obtain ⟨u, hu, hsame⟩ := mkdirs_root hsep h s
    have hperform : outcome (perform isalnum P (s, .listKeys []) st) =
        (outcome (listKeys isalnum s [] st)).map .keys := outcome_bind_pure _ _ _
    rw [hperform, listKeys_eq hu, keysBelow_congr (hsame s).entry_iff]
    rfl
  rw [houtcome h, houtcome h'] at hlist
  have hkeys : keysBelow (effectiveRoot isalnum s) [] st'.files =
      keysBelow (effectiveRoot isalnum s) [] st.files :=
    Response.keys.inj (Except.ok.inj hlist)
  exact mem_keys.mp (hkeys ▸ mem_keys.mpr ⟨q, hq, rfl⟩)

theorem tidy_deleteScope (hsep : Separated isalnum) (h : Tidy st) {n : Nat}
    (hok : deleteScope isalnum P s st = .ok n st') : Tidy st' := by
  have hloop : ∀ keys : List Text, Maintains Tidy (keys.forM (delete isalnum P s)) := by
    intro keys
    induction keys with
    | nil => exact Maintains.pure _
    | cons key keys ih => exact Maintains.bind (maintains_delete hsep key) fun _ => ih
  have hmaintains : Maintains Tidy (deleteScope isalnum P s) := by
    rw [deleteScope]
    apply Maintains.bind (maintains_listKeys hsep [])
    intro keys
    exact Maintains.bind (hloop keys) fun _ => Maintains.pure _
  have htidy := hmaintains st h
  rwa [hok] at htidy

end Directories

section Unshared

theorem effectiveRoot_ne_nil (hs : s ≠ defaultScope) : effectiveRoot isalnum s ≠ [] := by
  rw [effectiveRoot, if_neg hs]
  exact List.cons_ne_nil _ _

theorem empty_of_get? {index : Index F} (h : ∀ key, index.get? key = none) : index = .empty := by
  apply OrderedDict.ext_entries
  cases hentries : index.entries with
  | nil => rfl
  | cons e rest =>
      have hget : index.get? e.1 = some e.2 := by
        rw [OrderedDict.get?_eq_some, hentries]
        exact List.mem_cons_self
      rw [h] at hget
      cases hget

/-- A scope other than the default one holds nothing that the default scope does not list. -/
theorem deletesExactly_iff_of_ne (hsep : Separated isalnum) (h : Tidy st)
    (hs : s ≠ defaultScope) : DeletesExactly isalnum P s st ↔ Deletable isalnum P s st := by
  obtain ⟨u, hu, hsame⟩ := mkdirs_root hsep h s
  have hdelete := deleteScope_eq (P := P) hu (hsame s)
  have hempty : (∀ q, ¬ Entry (effectiveRoot isalnum s) st.files q) →
      deleteScope isalnum P s st = .ok 0 { st with files := u } := by
    intro hnone
    rw [hdelete, keys_eq_nil.mpr hnone]
    rfl
  constructor
  · intro hexact
    obtain ⟨n, st', hok, hcleared, hframe⟩ := hexact
    have hnone : ∀ q, ¬ Entry (effectiveRoot isalnum s) st.files q := by
      intro q hq
      have hdefault := hframe defaultScope (Ne.symm hs) (.listKeys []) trivial
      have hlift : Entry (effectiveRoot isalnum defaultScope) st.files
          (effectiveRoot isalnum s ++ q) := by
        rw [effectiveRoot_default]
        exact hq.lift
      obtain ⟨q', hq', hkey⟩ :=
        entry_of_listKeys hsep h (tidy_deleteScope hsep h hok) hdefault hlift
      rw [effectiveRoot_default] at hq'
      -- what the default scope still lists lies in the same directory
      have hdir := dropLast_of_pathToKey h (tidy_deleteScope hsep h hok) hq.lift hq' hkey
      rw [List.dropLast_append_of_ne_nil hq.1] at hdir
      have hbelow : effectiveRoot isalnum s <+: q' :=
        (hdir ▸ List.prefix_append _ _ : effectiveRoot isalnum s <+: q'.dropLast).trans
          (List.dropLast_prefix q')
      have hne : q' ≠ effectiveRoot isalnum s := by
        intro heq
        have hlen := congrArg List.length hdir
        rw [heq, List.length_dropLast, List.length_append] at hlen
        have hpos : 0 < (effectiveRoot isalnum s).length :=
          List.length_pos_iff.mpr (effectiveRoot_ne_nil hs)
        omega
      obtain ⟨q'', hq'', _⟩ := hq'.drop hbelow hne
      exact keys_eq_nil.mp hcleared.keys q'' hq''
    rw [hempty hnone] at hok
    cases hok
    refine ⟨fun q hq => absurd hq (hnone q), fun q hq => absurd hq (hnone q), ?_, ?_,
      fun q hq => absurd hq (hnone q)⟩
    · intro key path hpath hindex hfile
      have hgone := hcleared.documents key path hpath hindex
      rw [(hsame s).document hpath, hfile] at hgone
      cases hgone
    · refine ⟨.empty, (outcome_getEmbeddings (hsame s)).symm.trans hcleared.embeddings, ?_⟩
      intro key hkey
      exact absurd rfl hkey
  · intro hdel
    have hnone : ∀ q, ¬ Entry (effectiveRoot isalnum s) st.files q := by
      intro q hq
      apply hdel.unshared q hq defaultScope (Ne.symm hs)
      rw [effectiveRoot_default]
      exact List.nil_prefix
    refine ⟨0, _, hempty hnone, ⟨?_, ?_, ?_⟩, ?_⟩
    · intro key path hpath hindex
      rw [← Bool.not_eq_true, (hsame s).document hpath]
      intro hfile
      obtain ⟨q, hq, _⟩ := hdel.documents key path hpath hindex hfile
      exact hnone q hq
    · rw [keys_eq_nil]
      intro q hq
      exact hnone q (((hsame s).entry_iff q).mp hq)
    · obtain ⟨index, hindex, hkeys⟩ := hdel.embeddings
      have hget : ∀ key, index.get? key = none := by
        intro key
        by_cases hkey : index.get? key = none
        · exact hkey
        · have hmem := hkeys key hkey
          rw [keys_eq_nil.mpr hnone] at hmem
          cases hmem
      rw [outcome_getEmbeddings (hsame s), hindex, empty_of_get? hget]
    · intro s' _ op hop
      exact outcome_reads (hsame s') hop

end Unshared

section Default

/-- A file that is deleted lies below the directory of an entry. -/
theorem entry_of_taken (h : Tidy st) {p : Path} (hp : Taken (keysBelow [] [] st.files) p) :
    '.' ∈ p.getLastD [] ∧ ∃ q, Entry [] st.files q ∧ p.dropLast <+: q := by
  obtain ⟨key, hkey, path, hpath, hmem⟩ := hp
  obtain ⟨q, hq, rfl⟩ := mem_keys.mp hkey
  obtain ⟨hdir, hdot⟩ := mem_workFiles hmem
  refine ⟨hdot, q, hq, ?_⟩
  rw [hdir]
  exact (led_above h hq hpath).trans (List.dropLast_prefix q)

theorem taken_of_reached {path : Path} (h : Reached [] st.files path) :
    Taken (keysBelow [] [] st.files) path := by
  obtain ⟨q, hq, hpath⟩ := h
  exact ⟨_, mem_keys.mpr ⟨q, hq, rfl⟩, path, hpath, mem_workFiles_self hpath⟩

/-- A document that is deleted is one that a key leads to. -/
theorem reached_of_taken {path : Path} (hjson : jsonSuffix <:+ path.getLastD [])
    (h : Taken (keysBelow [] [] st.files) path) : Reached [] st.files path := by
  obtain ⟨key, hkey, path', hpath, hmem⟩ := h
  obtain ⟨q, hq, rfl⟩ := mem_keys.mp hkey
  obtain ⟨x, hx, rfl, _⟩ := keyToPath_eq_some hpath
  rw [← dataFile, workFiles_dataFile hx] at hmem
  have hother : ∀ e ∈ [tmpSuffix, bakSuffix], ∀ x : Text, ¬ jsonSuffix <:+ x ++ e := by
    intro e he x hsuffix
    have hlen : jsonSuffix.length = 5 ∧ ∀ e ∈ [tmpSuffix, bakSuffix], e.length = 4 ∧
        ¬ e <:+ jsonSuffix := by decide
    have hle : e <:+ jsonSuffix := by
      apply List.suffix_of_suffix_length_le (List.suffix_append x e) hsuffix
      rw [hlen.1, (hlen.2 e he).1]
      omega
    exact (hlen.2 e he).2 hle
  simp only [List.mem_cons, List.not_mem_nil, or_false] at hmem
  refine ⟨q, hq, ?_⟩
  cases hmem with
  | inl heq => rw [heq]; exact hpath
  | inr hmem =>
      cases hmem with
      | inl heq =>
          rw [heq, tmpFile, List.getLastD_concat] at hjson
          exact absurd hjson (hother _ (by decide) x)
      | inr heq =>
          rw [heq, bakFile, List.getLastD_concat] at hjson
          exact absurd hjson (hother _ (by decide) x)

/-- Scopes whose directories hold no entry do not notice. -/
theorem sameReads_deleted (hsep : Separated isalnum) (h : Tidy st)
    (hdel : Deleted (keysBelow [] [] st.files) st st') (hs : s ≠ defaultScope)
    (hunshared : ∀ q, Entry [] st.files q → ¬ effectiveRoot isalnum s <+: q) :
    SameReads isalnum s st st' := by
  have hshort : ∀ p ∈ indexFiles [], p.length = 1 ∧ '.' ∈ p.getLastD [] := by decide
  refine ⟨?_, ?_, hdel.others s hs⟩
  · intro dir n _ hdir
    apply hdel.kept
    · intro hindex
      have hlen := (hshort _ hindex).1
      have hpos : 0 < dir.length := List.length_pos_iff.mpr fun hnil =>
        effectiveRoot_ne_nil hs (List.prefix_nil.mp (hnil ▸ hdir))
      rw [List.length_append, List.length_singleton] at hlen
      omega
    · intro htaken
      obtain ⟨_, q, hq, hle⟩ := entry_of_taken h htaken
      rw [List.dropLast_concat] at hle
      exact hunshared q hq (hdir.trans hle)
  · intro q hq
    by_cases hnil : q = []
    · rw [FileTree.isFile, FileTree.isFile, hnil, FileTree.node?_nil, FileTree.node?_nil]
    · have hdotless : '.' ∉ q.getLastD [] := fun hdot =>
        not_prefix_of_dot hnil hdot (fun n hn => dotless_of_mem_root hsep hn) hq
      rw [FileTree.isFile, FileTree.isFile, hdel.kept q (fun hindex => hdotless (hshort q hindex).2)
        fun htaken => hdotless (entry_of_taken h htaken).1]

theorem deleteScope_default (isalnum : Char → Bool) (P : Platform V F S) (st : JsonStore V F) :
    deleteScope isalnum P defaultScope st =
      (do (keysBelow [] [] st.files).forM (delete isalnum P defaultScope)
          return (keysBelow [] [] st.files).length) st := by
  have hmk : st.files.mkdirs (effectiveRoot isalnum defaultScope) = .ok st.files := by
    rw [effectiveRoot_default]
    rfl
  have hsame : SameReads isalnum defaultScope st { st with files := st.files } :=
    ⟨fun _ _ _ _ => rfl, fun _ _ => rfl, rfl⟩
  have hdelete := deleteScope_eq (P := P) hmk hsame
  rwa [effectiveRoot_default] at hdelete

theorem embeddingsPath_default :
    embeddingsPath isalnum defaultScope = dataFile [] embeddingsName := by
  rw [embeddingsPath, effectiveRoot_default]
  rfl

/-- Keys that lead to all entries and documents, and to nothing of another scope. -/
theorem deletesExactly_of_deletable (hsep : Separated isalnum) (h : Tidy st)
    (hdel : Deletable isalnum P defaultScope st) : DeletesExactly isalnum P defaultScope st := by
  obtain ⟨hremovable, hentries, hdocuments, hembeddings, hunshared⟩ := hdel
  rw [effectiveRoot_default] at hremovable hentries hdocuments hembeddings hunshared
  have hrem : ∀ key ∈ keysBelow [] [] st.files, Removable [] st.files key := by
    intro key hkey
    obtain ⟨q, hq, rfl⟩ := mem_keys.mp hkey
    exact hremovable q hq
  obtain ⟨st', hok, _, hdeleted⟩ := deleteAll_spec (P := P) hsep h hrem
  refine ⟨_, st', by rw [deleteScope_default, bind_ok hok]; rfl, ⟨?_, ?_, ?_⟩, ?_⟩
  · intro key path hpath hindex
    rw [effectiveRoot_default] at hpath
    rw [embeddingsPath_default] at hindex
    have hout := document_not_index hpath hindex
    by_cases htaken : Taken (keysBelow [] [] st.files) path
    · rw [FileTree.isFile, hdeleted.gone path hout htaken]
    · rw [FileTree.isFile, hdeleted.kept path hout htaken, ← FileTree.isFile, ← Bool.not_eq_true]
      rw [embeddingsPath_default] at hdocuments
      exact fun hfile => htaken (taken_of_reached (hdocuments key path hpath hindex hfile))
  · rw [effectiveRoot_default, keys_eq_nil]
    intro q hq
    have hout := listed_not_index hq.2.2
    by_cases htaken : Taken (keysBelow [] [] st.files) q
    · exact hq.2.1 (hdeleted.gone q hout htaken)
    · have hbefore : Entry [] st.files q :=
        ⟨hq.1, (hdeleted.kept q hout htaken) ▸ hq.2.1, hq.2.2⟩
      exact htaken (taken_of_reached (hentries q hbefore))
  · obtain ⟨index, hindex⟩ := Option.ne_none_iff_exists'.mp h.loaded
    obtain ⟨index', hindex', hget⟩ := hdeleted.index index hindex
    obtain ⟨index₀, hindex₀, hkeys⟩ := hembeddings
    rw [getEmbeddings_cached hindex] at hindex₀
    cases hindex₀
    have hempty : ∀ key, index'.get? key = none := by
      intro key
      rw [hget]
      by_cases hkey : key ∈ keysBelow [] [] st.files
      · rw [if_pos hkey]
      · rw [if_neg hkey]
        by_contra hsome
        exact hkey (hkeys key hsome)
    rw [getEmbeddings_cached hindex', empty_of_get? hempty]
    rfl
  · intro s' hs' op hop
    exact outcome_reads
      (sameReads_deleted hsep h hdeleted hs' fun q hq => hunshared q hq s' hs') hop

theorem deletable_of_deletesExactly (hsep : Separated isalnum) (h : Tidy st)
    (hexact : DeletesExactly isalnum P defaultScope st) :
    Deletable isalnum P defaultScope st := by
  obtain ⟨n, st', hok, hcleared, hframe⟩ := hexact
  have htidy' := tidy_deleteScope hsep h hok
  rw [deleteScope_default] at hok
  obtain ⟨_, st₁, hloop, hok⟩ := exists_of_bind_ok hok
  cases hok
  have hrem := removable_of_deleteAll hsep h hloop
  obtain ⟨st₂, hloop', _, hdeleted⟩ := deleteAll_spec (P := P) hsep h hrem
  rw [hloop] at hloop'
  cases hloop'
  obtain ⟨hdocuments, hkeys, hembeddings⟩ := hcleared
  rw [effectiveRoot_default] at hdocuments hkeys
  rw [embeddingsPath_default] at hdocuments
  have hnone : ∀ q, ¬ Entry [] st'.files q := keys_eq_nil.mp hkeys
  refine ⟨?_, ?_, ?_, ?_, ?_⟩
  · rw [effectiveRoot_default]
    exact fun q hq => hrem _ (mem_keys.mpr ⟨q, hq, rfl⟩)
  · rw [effectiveRoot_default]
    intro q hq
    have htaken : Taken (keysBelow [] [] st.files) q := by
      by_contra htaken
      have hkept := hdeleted.kept q (listed_not_index hq.2.2) htaken
      exact hnone q ⟨hq.1, hkept ▸ hq.2.1, hq.2.2⟩
    have hlisted := hq.2.2
    rw [listed, Bool.and_eq_true, List.isSuffixOf_iff_suffix] at hlisted
    exact reached_of_taken hlisted.1 htaken
  · rw [effectiveRoot_default, embeddingsPath_default]
    intro key path hpath hindex hfile
    have htaken : Taken (keysBelow [] [] st.files) path := by
      by_contra htaken
      have hgone := hdocuments key path hpath hindex
      rw [FileTree.isFile, hdeleted.kept path (document_not_index hpath hindex) htaken,
        ← FileTree.isFile, hfile] at hgone
      cases hgone
    obtain ⟨x, _, rfl, _⟩ := keyToPath_eq_some hpath
    apply reached_of_taken _ htaken
    rw [List.getLastD_concat]
    exact List.suffix_append _ _
  · rw [effectiveRoot_default]
    obtain ⟨index, hindex⟩ := Option.ne_none_iff_exists'.mp h.loaded
    obtain ⟨index', hindex', hget⟩ := hdeleted.index index hindex
    rw [getEmbeddings_cached hindex'] at hembeddings
    cases hembeddings
    refine ⟨index, by rw [getEmbeddings_cached hindex]; rfl, ?_⟩
    intro key hkey
    by_contra hmem
    have hafter := hget key
    rw [if_neg hmem] at hafter
    exact hkey hafter.symm
  · rw [effectiveRoot_default]
    intro q hq s' hs' hle
    have hne : q ≠ effectiveRoot isalnum s' := by
      intro heq
      have hself : q <+: effectiveRoot isalnum s' := by rw [heq]
      exact not_prefix_of_dot hq.1 (dot_of_listed hq.2.2)
        (fun n hn => dotless_of_mem_root hsep hn) hself
    obtain ⟨q', hq', _⟩ := hq.drop hle hne
    obtain ⟨q'', hq'', _⟩ :=
      entry_of_listKeys hsep h htidy' (hframe s' hs' (.listKeys []) trivial) hq'
    exact hnone _ hq''.lift

end Default

/-- After every run of operations, deleting a scope is exact if and only if the keys that the
listing of the scope reports lead to everything that the scope holds and to nothing else. -/
theorem deleteScope_exact_iff (hsep : Separated isalnum) (P : Platform V F S)
    {ops : List (Scope × StorageOp V F)} (hops : ∀ r ∈ ops, StoreOp r.2) (s : Scope) :
    DeletesExactly isalnum P s (storeAfter isalnum P ops) ↔
      Deletable isalnum P s (storeAfter isalnum P ops) := by
  have h : Tidy (storeAfter isalnum P ops) := tidy_storeAfter hsep hops
  by_cases hs : s = defaultScope
  · subst hs
    exact ⟨deletable_of_deletesExactly hsep h, deletesExactly_of_deletable hsep h⟩
  · exact deletesExactly_iff_of_ne hsep h hs

section Sample

theorem separated_isAlphanum : Separated Char.isAlphanum := by
  intro c hc
  simp only [List.mem_cons, List.not_mem_nil, or_false] at hc
  obtain rfl | rfl | rfl := hc <;> rfl

/-- Two documents of the default scope, and one of another scope that it has deleted itself. -/
def savedPattern : List (Scope × StorageOp Nat Nat) :=
  [(defaultScope, .save "patterns/a".toList 7), (defaultScope, .save "evals/run".toList 8),
    (⟨"acme".toList, "p".toList⟩, .save "patterns/c".toList 9),
    (⟨"acme".toList, "p".toList⟩, .delete "patterns/c".toList)]

def savedDocuments : List Path :=
  [["patterns".toList, "a.json".toList], ["evals".toList, "run.json".toList]]

theorem savedPattern_storeOps : ∀ r ∈ savedPattern, StoreOp r.2 := by
  rw [savedPattern, List.forall_mem_cons, List.forall_mem_cons, List.forall_mem_cons,
    List.forall_mem_singleton]
  exact ⟨⟨"patterns".toList, by decide, "a".toList, rfl⟩,
    ⟨"evals".toList, by decide, "run".toList, rfl⟩,
    ⟨"patterns".toList, by decide, "c".toList, rfl⟩, trivial⟩

theorem savedPattern_below :
    (storeAfter Char.isAlphanum lengthPlatform savedPattern).files.below [] =
      [["patterns".toList], ["patterns".toList, "a.json".toList], ["evals".toList],
        ["evals".toList, "run.json".toList], ["acme".toList], ["acme".toList, "p".toList],
        ["acme".toList, "p".toList, "patterns".toList]] := rfl

theorem entry_savedPattern_iff (q : Path) :
    Entry [] (storeAfter Char.isAlphanum lengthPlatform savedPattern).files q ↔
      q ∈ savedDocuments := by
  constructor
  · intro hq
    have hmem := FileTree.mem_below.mpr ⟨hq.1, hq.2.1⟩
    rw [savedPattern_below] at hmem
    have hlisted : ∀ p ∈ [["patterns".toList], ["patterns".toList, "a.json".toList],
        ["evals".toList], ["evals".toList, "run.json".toList], ["acme".toList],
        ["acme".toList, "p".toList], ["acme".toList, "p".toList, "patterns".toList]],
        listed p = true → p ∈ savedDocuments := by decide
    exact hlisted q hmem hq.2.2
  · intro hq
    rw [savedDocuments, List.mem_cons, List.mem_singleton] at hq
    obtain rfl | rfl := hq
    · exact ⟨List.cons_ne_nil _ _, Option.some_ne_none _, rfl⟩
    · exact ⟨List.cons_ne_nil _ _, Option.some_ne_none _, rfl⟩

theorem reached_savedDocuments {q : Path} (hq : q ∈ savedDocuments) :
    Reached [] (storeAfter Char.isAlphanum lengthPlatform savedPattern).files q := by
  have hkey : ∀ q ∈ savedDocuments, keyToPath [] (pathToKey q) = some q := by decide
  exact ⟨q, (entry_savedPattern_iff q).mpr hq, hkey q hq⟩

theorem deleteScope_exact_pattern :
    DeletesExactly Char.isAlphanum lengthPlatform defaultScope
      (storeAfter Char.isAlphanum lengthPlatform savedPattern) := by
  apply (deleteScope_exact_iff separated_isAlphanum lengthPlatform savedPattern_storeOps
    defaultScope).mpr
  refine ⟨?_, ?_, ?_, ⟨.empty, rfl, fun key hkey => absurd rfl hkey⟩, ?_⟩
  · intro q hq
    have hmem := (entry_savedPattern_iff q).mp hq
    rw [savedDocuments, List.mem_cons, List.mem_singleton] at hmem
    obtain rfl | rfl := hmem
    · exact ⟨["patterns".toList, "a.json".toList], rfl, by decide⟩
    · exact ⟨["evals".toList, "run.json".toList], rfl, by decide⟩
  · intro q hq
    exact reached_savedDocuments ((entry_savedPattern_iff q).mp hq)
  · intro key path hpath _ hfile
    have hmem : path ∈ (storeAfter Char.isAlphanum lengthPlatform savedPattern).files.below [] := by
      rw [FileTree.mem_below]
      constructor
      · intro hnil
        rw [hnil] at hfile
        cases hfile
      · intro hnone
        rw [List.nil_append] at hnone
        rw [FileTree.isFile, hnone] at hfile
        cases hfile
    rw [savedPattern_below] at hmem
    have hfiles : ∀ p ∈ [["patterns".toList], ["patterns".toList, "a.json".toList],
        ["evals".toList], ["evals".toList, "run.json".toList], ["acme".toList],
        ["acme".toList, "p".toList], ["acme".toList, "p".toList, "patterns".toList]],
        (storeAfter Char.isAlphanum lengthPlatform savedPattern).files.isFile p = true →
          p ∈ savedDocuments := by decide
    exact reached_savedDocuments (hfiles path hmem hfile)
  · intro q hq s' hs' hle
    have hdotted : ∀ q ∈ savedDocuments, q.length = 2 ∧ ∃ n ∈ q, '.' ∈ n := by decide
    obtain ⟨hlength, n, hn, hdot⟩ := hdotted q ((entry_savedPattern_iff q).mp hq)
    have hroot : effectiveRoot Char.isAlphanum s' =
        [sanitizeSegment Char.isAlphanum s'.tenantId,
          sanitizeSegment Char.isAlphanum s'.projectId] := if_neg hs'
    rw [effectiveRoot_default, List.nil_append] at hle
    have heq : effectiveRoot Char.isAlphanum s' = q :=
      hle.eq_of_length (by rw [hroot, hlength]; rfl)
    exact dotless_of_mem_root separated_isAlphanum (heq ▸ hn) hdot

def savedSkills : List (Scope × StorageOp Nat Nat) :=
  [(defaultScope, .save "skills/_registry".toList 5)]

/-- The skills of the scope are still there. -/
theorem registry_survives :
    ¬ DeletesExactly Char.isAlphanum lengthPlatform defaultScope
      (storeAfter Char.isAlphanum lengthPlatform savedSkills) := by
  intro hexact
  obtain ⟨n, st', hok, hcleared, _⟩ := hexact
  have hdelete : deleteScope Char.isAlphanum lengthPlatform defaultScope
      (storeAfter Char.isAlphanum lengthPlatform savedSkills) =
      .ok 0 (storeAfter Char.isAlphanum lengthPlatform savedSkills) := rfl
  rw [hdelete] at hok
  cases hok
  have hgone := hcleared.documents "skills/_registry".toList
    ["skills".toList, "_registry.json".toList] rfl (by decide)
  cases hgone

end Sample

end Engramia.Storage
