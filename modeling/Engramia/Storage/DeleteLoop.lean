import Engramia.Storage.Reachable

/-!
Deleting keys of the default scope one after the other. A deletion removes the files of its
key and the key from the index, and it raises exactly where one of the files is a directory
or the key stands for no path. What is deleted first is in nobody's way later, so a list of
keys is deleted when each of them could be deleted at once.
-/
namespace Engramia.Storage
open Engramia.Library

variable {V F S : Type} {isalnum : Char → Bool} {P : Platform V F S}
variable {st st' : JsonStore V F} {key : Text} {dir : Path} {x : Text}

/-- The files that deleting a document removes. -/
def workFiles (path : Path) : List Path := fileSuffixes.map (withSuffix path)

/-- The key has a path, and none of its files is a directory. -/
def Removable (root : Path) (t : Files V) (key : Text) : Prop :=
  ∃ path, keyToPath root key = some path ∧ ∀ q ∈ workFiles path, t.node? q ≠ some .dir

/-- A file of one of the keys. -/
def Taken (keys : List Text) (q : Path) : Prop :=
  ∃ key ∈ keys, ∃ path, keyToPath [] key = some path ∧ q ∈ workFiles path

/-- What deleting keys of the default scope changes. -/
structure Deleted (keys : List Text) (st st' : JsonStore V F) : Prop where
  gone : ∀ q, q ∉ indexFiles [] → Taken keys q → st'.files.node? q = none
  kept : ∀ q, q ∉ indexFiles [] → ¬ Taken keys q → st'.files.node? q = st.files.node? q
  index : ∀ index, st.scopeEmbeddings defaultScope = some index →
    ∃ index', st'.scopeEmbeddings defaultScope = some index' ∧
      ∀ key, index'.get? key = if key ∈ keys then none else index.get? key
  others : ∀ s, s ≠ defaultScope → st'.scopeEmbeddings s = st.scopeEmbeddings s

section Single

theorem effectiveRoot_default : effectiveRoot isalnum defaultScope = [] := if_pos rfl

theorem workFiles_dataFile (hx : x ≠ []) :
    workFiles (dataFile dir x) = [dataFile dir x, tmpFile dir x, bakFile dir x] := by
  show [withSuffix _ jsonSuffix, withSuffix _ tmpSuffix, withSuffix _ bakSuffix] = _
  rw [withSuffix_tmp hx, withSuffix_bak hx, dataFile, withSuffix_json hx]

theorem forall_workFiles (hx : x ≠ []) {p : Path → Prop} :
    (∀ q ∈ workFiles (dataFile dir x), p q) ↔
      p (dataFile dir x) ∧ p (tmpFile dir x) ∧ p (bakFile dir x) := by
  simp [workFiles_dataFile hx]

theorem Tidy.index_ne_dir (h : Tidy st) {q : Path} (hq : q ∈ indexFiles []) :
    st.files.node? q ≠ some .dir := by
  have hne : ∀ q ∈ indexFiles [], q ≠ [] := by decide
  exact fun hdir => (h.files.dirs q (hne q hq) hdir).2 hq

theorem delete_eq (hpath : keyToPath [] key = some (dataFile dir x)) (hx : x ≠ []) :
    delete isalnum P defaultScope key st =
      (do unlinkIfPresent (dataFile dir x)
          unlinkIfPresent (bakFile dir x)
          unlinkIfPresent (tmpFile dir x)
          let embeddings ← getEmbeddings isalnum P defaultScope
          if (embeddings.get? key).isSome then
            saveEmbeddingsIndex isalnum P defaultScope (embeddings.discard (· = key))) st := by
  have hroot : keyToPath (effectiveRoot isalnum defaultScope) key = some (dataFile dir x) := by
    rw [effectiveRoot_default, hpath]
  rw [delete, pathOfKey_bind hroot, withSuffix_bak hx, withSuffix_tmp hx]

theorem unlink_workFiles (hx : x ≠ []) (hg : st.files.Grounded)
    (hfree : ∀ q ∈ workFiles (dataFile dir x), st.files.node? q ≠ some .dir) :
    ∃ u : Files V, (∀ next : StoreM V F Unit,
        (do unlinkIfPresent (dataFile dir x)
            unlinkIfPresent (bakFile dir x)
            unlinkIfPresent (tmpFile dir x)
            next) st = next { st with files := u }) ∧
      u.Grounded ∧
      ∀ q, u.node? q = if q ∈ workFiles (dataFile dir x) then none else st.files.node? q := by
  obtain ⟨hdata, htmp, hbak⟩ := (forall_workFiles hx).mp hfree
  obtain ⟨u1, h1, hg1, hn1⟩ := unlinkIfPresent_spec st (dataFile dir x) hg hdata
  obtain ⟨u2, h2, hg2, hn2⟩ := unlinkIfPresent_spec { st with files := u1 } (bakFile dir x) hg1
    (by rw [hn1, if_neg bakFile_ne_dataFile]; exact hbak)
  obtain ⟨u3, h3, hg3, hn3⟩ := unlinkIfPresent_spec { st with files := u2 } (tmpFile dir x) hg2
    (by rw [hn2, if_neg bakFile_ne_tmpFile.symm, hn1, if_neg tmpFile_ne_dataFile]; exact htmp)
  refine ⟨u3, ?_, hg3, ?_⟩
  · intro next
    rw [bind_ok h1, bind_ok h2, bind_ok h3]
  · intro q
    rw [hn3, hn2, hn1, workFiles_dataFile hx]
    by_cases hqd : q = dataFile dir x
    · simp [hqd]
    · by_cases hqt : q = tmpFile dir x
      · simp [hqt]
      · by_cases hqb : q = bakFile dir x
        · simp [hqb]
        · simp [hqd, hqt, hqb]

theorem getEmbeddings_cached {s : Scope} {index : Index F}
    (h : st.scopeEmbeddings s = some index) : getEmbeddings isalnum P s st = .ok index st := by
  rw [getEmbeddings, cached_bind, h]
  rfl

variable (isalnum P st) in
/-- Saving the index of the default scope touches its files and no others. -/
theorem saveEmbeddingsIndex_default (hg : st.files.Grounded)
    (hfree : ∀ q ∈ indexFiles [], st.files.node? q ≠ some .dir) (index : Index F) :
    ∃ u, saveEmbeddingsIndex isalnum P defaultScope index st =
        .ok () { files := u, scopeEmbeddings := fun s =>
          if s = defaultScope then some index else st.scopeEmbeddings s } ∧
      ∀ q, q ∉ indexFiles [] → u.node? q = st.files.node? q := by
  have hindex : embeddingsPath isalnum defaultScope = dataFile [] embeddingsName := by
    rw [embeddingsPath, effectiveRoot_default]
    rfl
  have hw : Writable st.files [] embeddingsName := by
    refine ⟨hg, ?_, hfree _ (by decide), hfree _ (by decide), hfree _ (by decide)⟩
    intro q hq
    rw [List.prefix_nil.mp hq]
    rfl
  have hwrite : ∀ st₁ : JsonStore V F, st₁.files = st.files →
      ∃ u, atomicWrite (dataFile [] embeddingsName) (P.ofIndex index) st₁ =
          .ok () { st₁ with files := u } ∧
        ∀ q, q ∉ indexFiles [] → u.node? q = st.files.node? q := by
    intro st₁ hfiles
    rw [← hfiles] at hw ⊢
    obtain ⟨u, hu, -, hnode⟩ := atomicWrite_spec (by decide) hw (P.ofIndex index)
    refine ⟨u, hu, ?_⟩
    intro q hq
    simp only [indexFiles, List.mem_cons, List.not_mem_nil, or_false, not_or] at hq
    rw [hnode, if_neg hq.1, if_neg hq.2.1, if_neg hq.2.2]
    by_cases hnil : q <+: []
    · rw [if_pos hnil, List.prefix_nil.mp hnil, FileTree.node?_nil]
    · rw [if_neg hnil]
  obtain ⟨u, hu, hnode⟩ := hwrite (final (cache defaultScope index st)) rfl
  refine ⟨u, ?_, hnode⟩
  rw [saveEmbeddingsIndex, hindex]
  exact hu

theorem taken_singleton {path q : Path} (hpath : keyToPath [] key = some path) :
    Taken [key] q ↔ q ∈ workFiles path := by
  simp [Taken, hpath]

variable (isalnum P) in
theorem delete_spec (h : Tidy st) (hrem : Removable [] st.files key) :
    ∃ st', delete isalnum P defaultScope key st = .ok () st' ∧ Deleted [key] st st' := by
  obtain ⟨path, hpath, hfree⟩ := hrem
  obtain ⟨x, hx, rfl, -⟩ := keyToPath_eq_some hpath
  obtain ⟨u, hu, hg, hnode⟩ := unlink_workFiles hx h.files.grounded hfree
  obtain ⟨index, hindex⟩ := Option.ne_none_iff_exists'.mp h.loaded
  have hcached : ({ st with files := u } : JsonStore V F).scopeEmbeddings defaultScope =
      some index := hindex
  have hrest : delete isalnum P defaultScope key st =
      (if (index.get? key).isSome then
        saveEmbeddingsIndex isalnum P defaultScope (index.discard (· = key))
      else pure ()) { st with files := u } := by
    rw [delete_eq hpath hx, hu, bind_ok (getEmbeddings_cached hcached)]
  by_cases hkey : (index.get? key).isSome = true
  · have hfree' : ∀ q ∈ indexFiles [], u.node? q ≠ some .dir := by
      intro q hq
      rw [hnode]
      split
      · exact fun hnone => by cases hnone
      · exact h.index_ne_dir hq
    obtain ⟨u', hu', hnode'⟩ :=
      saveEmbeddingsIndex_default isalnum P { st with files := u } hg hfree'
        (index.discard (· = key))
    refine ⟨_, by rw [hrest, if_pos hkey]; exact hu', ?_, ?_, ?_, ?_⟩
    · intro q hq htaken
      exact (hnode' q hq).trans ((hnode q).trans (if_pos ((taken_singleton hpath).mp htaken)))
    · intro q hq htaken
      exact (hnode' q hq).trans
        ((hnode q).trans (if_neg fun hmem => htaken ((taken_singleton hpath).mpr hmem)))
    · intro index₀ hindex₀
      rw [hindex] at hindex₀
      cases hindex₀
      refine ⟨index.discard (· = key), by simp, ?_⟩
      intro k
      rw [OrderedDict.get?_discard]
      simp
    · intro s hs
      exact if_neg hs
  · refine ⟨_, by rw [hrest, if_neg hkey]; rfl, ?_, ?_, ?_, ?_⟩
    · intro q _ htaken
      exact (hnode q).trans (if_pos ((taken_singleton hpath).mp htaken))
    · intro q _ htaken
      exact (hnode q).trans (if_neg fun hmem => htaken ((taken_singleton hpath).mpr hmem))
    · intro index₀ hindex₀
      rw [hindex] at hindex₀
      cases hindex₀
      refine ⟨_, hindex, ?_⟩
      intro k
      by_cases hk : k ∈ [key]
      · rw [if_pos hk, List.mem_singleton.mp hk]
        simpa using hkey
      · rw [if_neg hk]
    · intro s _
      rfl

theorem unlinkIfPresent_ok {p : Path} (h : unlinkIfPresent p st = .ok () st') :
    st.files.node? p ≠ some .dir := by
  intro hdir
  rw [unlinkIfPresent_dir hdir] at h
  cases h

theorem removable_of_delete (hg : st.files.Grounded)
    (hok : delete isalnum P defaultScope key st = .ok () st') : Removable [] st.files key := by
  cases hpath : keyToPath [] key with
  | none =>
      rw [delete, pathOfKey, effectiveRoot_default, hpath] at hok
      cases hok
  | some path =>
      obtain ⟨x, hx, rfl, -⟩ := keyToPath_eq_some hpath
      rw [delete_eq hpath hx] at hok
      obtain ⟨_, st1, h1, hok⟩ := exists_of_bind_ok hok
      obtain ⟨u1, hu1, hg1, hn1⟩ := unlinkIfPresent_spec st _ hg (unlinkIfPresent_ok h1)
      rw [hu1] at h1
      cases h1
      obtain ⟨_, st2, h2, hok⟩ := exists_of_bind_ok hok
      obtain ⟨u2, hu2, _, hn2⟩ := unlinkIfPresent_spec _ _ hg1 (unlinkIfPresent_ok h2)
      rw [hu2] at h2
      cases h2
      obtain ⟨_, st3, h3, _⟩ := exists_of_bind_ok hok
      have htmp := unlinkIfPresent_ok h3
      have hbak := unlinkIfPresent_ok (p := bakFile _ x) hu2
      refine ⟨_, hpath, (forall_workFiles hx).mpr ⟨unlinkIfPresent_ok hu1, ?_, ?_⟩⟩
      · simpa only [hn2, hn1, if_neg bakFile_ne_tmpFile.symm, if_neg tmpFile_ne_dataFile]
          using htmp
      · simpa only [hn1, if_neg bakFile_ne_dataFile] using hbak

end Single

section Lists
variable {keys : List Text}

theorem taken_cons {q : Path} : Taken (key :: keys) q ↔ Taken [key] q ∨ Taken keys q := by
  simp [Taken]

theorem Deleted.nil : Deleted [] st st := by
  refine ⟨?_, fun _ _ _ => rfl, ?_, fun _ _ => rfl⟩
  · intro q _ htaken
    obtain ⟨_, hmem, _⟩ := htaken
    cases hmem
  · intro index hindex
    exact ⟨index, hindex, fun k => (if_neg List.not_mem_nil).symm⟩

theorem Deleted.cons {st'' : JsonStore V F} (h : Deleted [key] st st')
    (h' : Deleted keys st' st'') : Deleted (key :: keys) st st'' := by
  refine ⟨?_, ?_, ?_, fun s hs => (h'.others s hs).trans (h.others s hs)⟩
  · intro q hq htaken
    by_cases hlater : Taken keys q
    · exact h'.gone q hq hlater
    · rw [h'.kept q hq hlater]
      exact h.gone q hq ((taken_cons.mp htaken).resolve_right hlater)
  · intro q hq htaken
    rw [taken_cons, not_or] at htaken
    rw [h'.kept q hq htaken.2, h.kept q hq htaken.1]
  · intro index hindex
    obtain ⟨index', hindex', hget⟩ := h.index index hindex
    obtain ⟨index'', hindex'', hget'⟩ := h'.index index' hindex'
    refine ⟨index'', hindex'', ?_⟩
    intro k
    rw [hget', hget]
    by_cases hk : k = key
    · by_cases hmem : k ∈ keys
      · simp [hmem]
      · simp [hk]
    · simp [hk]

/-- Deleting one key neither puts a directory in the way of another nor removes one. -/
theorem Deleted.removable_iff (h : Deleted [key] st st') (ht : Tidy st) (ht' : Tidy st')
    (hrem : Removable [] st.files key) {k : Text} :
    Removable [] st'.files k ↔ Removable [] st.files k := by
  obtain ⟨path, hpath, hfree⟩ := hrem
  have hnode : ∀ q, st'.files.node? q = some .dir ↔ st.files.node? q = some .dir := by
    intro q
    by_cases hindex : q ∈ indexFiles []
    · exact iff_of_false (ht'.index_ne_dir hindex) (ht.index_ne_dir hindex)
    · by_cases htaken : Taken [key] q
      · rw [h.gone q hindex htaken]
        exact iff_of_false (fun hnone => by cases hnone)
          (hfree q ((taken_singleton hpath).mp htaken))
      · rw [h.kept q hindex htaken]
  simp only [Removable, ne_eq, hnode]

theorem tidy_of_delete (hsep : Separated isalnum) (h : Tidy st)
    (hok : delete isalnum P defaultScope key st = .ok () st') : Tidy st' := by
  have htidy := maintains_delete (P := P) (s := defaultScope) hsep key st h
  rwa [hok] at htidy

theorem deleteAll_spec (hsep : Separated isalnum) (h : Tidy st)
    (hrem : ∀ key ∈ keys, Removable [] st.files key) :
    ∃ st', keys.forM (delete isalnum P defaultScope) st = .ok () st' ∧ Tidy st' ∧
      Deleted keys st st' := by
  induction keys generalizing st with
  | nil => exact ⟨st, rfl, h, Deleted.nil⟩
  | cons key keys ih =>
      rw [List.forall_mem_cons] at hrem
      obtain ⟨st1, h1, hdel⟩ := delete_spec isalnum P h hrem.1
      have htidy := tidy_of_delete hsep h h1
      have hrest : ∀ k ∈ keys, Removable [] st1.files k :=
        fun k hk => (hdel.removable_iff h htidy hrem.1).mpr (hrem.2 k hk)
      obtain ⟨st', hok, htidy', hdel'⟩ := ih htidy hrest
      exact ⟨st', (bind_ok h1).trans hok, htidy', hdel.cons hdel'⟩

/-- Where a list of keys was deleted each could have been deleted by itself. -/
theorem removable_of_deleteAll (hsep : Separated isalnum) (h : Tidy st)
    (hok : keys.forM (delete isalnum P defaultScope) st = .ok () st') :
    ∀ key ∈ keys, Removable [] st.files key := by
  induction keys generalizing st with
  | nil => exact fun key hmem => absurd hmem List.not_mem_nil
  | cons key keys ih =>
      obtain ⟨_, st1, h1, hok⟩ := exists_of_bind_ok (m := delete isalnum P defaultScope key) hok
      have hrem := removable_of_delete h.files.grounded h1
      obtain ⟨st2, h2, hdel⟩ := delete_spec isalnum P h hrem
      rw [h1] at h2
      cases h2
      have htidy := tidy_of_delete hsep h h1
      rw [List.forall_mem_cons]
      exact ⟨hrem, fun k hk => (hdel.removable_iff h htidy hrem).mp (ih htidy hok k hk)⟩

end Lists

end Engramia.Storage
