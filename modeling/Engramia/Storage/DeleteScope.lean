import Engramia.Storage.DeleteLoop

/-!
Deleting a scope over the JSON store. The keys are those that the listing of the scope
reports, each is deleted like any other key, and the root of the default scope contains the
directories of all others. What other scopes read afterwards depends on the entries with a
dot in their names: no directory of a scope has one.
-/
namespace Engramia.Storage
open Engramia.Library

variable {V F S : Type} {isalnum : Char → Bool} {P : Platform V F S} {s : Scope}

section Definitions
variable (isalnum : Char → Bool) (P : Platform V F S) (s : Scope)

/-- `StorageBackend.delete_scope` -/
def deleteScope : StoreM V F Nat := do
  let keys ← listKeys isalnum s []
  keys.forM (delete isalnum P s)
  return keys.length

def ReadOp : StorageOp V F → Prop
  | .load _ => True
  | .listKeys _ => True
  | .searchSimilar _ _ _ => True
  | _ => False

/-- Nothing that was saved under the scope is left: no document, no key and no vector. -/
structure Cleared (st : JsonStore V F) : Prop where
  documents : ∀ key path, keyToPath (effectiveRoot isalnum s) key = some path →
    path ≠ embeddingsPath isalnum s → st.files.isFile path = false
  keys : keysBelow (effectiveRoot isalnum s) [] st.files = []
  embeddings : outcome (getEmbeddings isalnum P s st) = .ok .empty

/-- The call returns, the scope is cleared, and the other scopes read what they read before. -/
def DeletesExactly (st : JsonStore V F) : Prop :=
  ∃ n st', deleteScope isalnum P s st = .ok n st' ∧ Cleared isalnum P s st' ∧
    ∀ s', s' ≠ s → ∀ op, ReadOp op →
      outcome (perform isalnum P (s', op) st') = outcome (perform isalnum P (s', op) st)

/-- An entry below a root that the listing takes for a document. -/
def Entry (root : Path) (t : Files V) (q : Path) : Prop :=
  q ≠ [] ∧ t.node? (root ++ q) ≠ none ∧ listed q = true

/-- The key of an entry leads to the path. -/
def Reached (root : Path) (t : Files V) (path : Path) : Prop :=
  ∃ q, Entry root t q ∧ keyToPath root (pathToKey q) = some path

/-- What has to hold before: the key of every entry can be deleted; the keys lead to every
entry and to every document; the embeddings can be read and belong to listed keys; and no
entry lies in the directory of another scope. -/
structure Deletable (st : JsonStore V F) : Prop where
  removable : ∀ q, Entry (effectiveRoot isalnum s) st.files q →
    Removable (effectiveRoot isalnum s) st.files (pathToKey q)
  entries : ∀ q, Entry (effectiveRoot isalnum s) st.files q →
    Reached (effectiveRoot isalnum s) st.files (effectiveRoot isalnum s ++ q)
  documents : ∀ key path, keyToPath (effectiveRoot isalnum s) key = some path →
    path ≠ embeddingsPath isalnum s → st.files.isFile path = true →
      Reached (effectiveRoot isalnum s) st.files path
  embeddings : ∃ index, outcome (getEmbeddings isalnum P s st) = .ok index ∧
    ∀ key, index.get? key ≠ none → key ∈ keysBelow (effectiveRoot isalnum s) [] st.files
  unshared : ∀ q, Entry (effectiveRoot isalnum s) st.files q → ∀ s', s' ≠ s →
    ¬ effectiveRoot isalnum s' <+: effectiveRoot isalnum s ++ q

/-- A scope finds the same under every name with a dot, can reach its root as before, and has
the same index in memory. -/
structure SameReads (st st' : JsonStore V F) : Prop where
  nodes : ∀ dir n, '.' ∈ n → effectiveRoot isalnum s <+: dir →
    st'.files.node? (dir ++ [n]) = st.files.node? (dir ++ [n])
  root : ∀ q, q <+: effectiveRoot isalnum s → st'.files.isFile q = st.files.isFile q
  cached : st'.scopeEmbeddings s = st.scopeEmbeddings s

end Definitions

section Reads
variable {st st' : JsonStore V F}

theorem outcome_bind_pure {α β : Type} (m : StoreM V F α) (g : α → β) (st : JsonStore V F) :
    outcome ((m >>= fun a => pure (g a)) st) = (outcome (m st)).map g := by
  cases hm : m st with
  | ok a t =>
      rw [bind_ok hm]
      rfl
  | error e t =>
      rw [bind_error hm]
      rfl

theorem dot_of_listed {q : Path} (h : listed q = true) : '.' ∈ q.getLastD [] := by
  rw [listed, Bool.and_eq_true, List.isSuffixOf_iff_suffix] at h
  exact h.1.subset (by decide)

theorem dot_mem_append_suffix {x e : Text} (he : e ∈ fileSuffixes) : '.' ∈ x ++ e := by
  have hall : ∀ e ∈ fileSuffixes, '.' ∈ e := by decide
  exact List.mem_append_right _ (hall e he)

theorem outcome_openRead_bind {α : Type} {path : Path} {g : Doc V → StoreM V F α}
    (hnode : st'.files.node? path = st.files.node? path)
    (hg : ∀ doc, outcome (g doc st') = outcome (g doc st)) :
    outcome ((openRead path >>= g) st') = outcome ((openRead path >>= g) st) := by
  have hread : st'.files.read path = st.files.read path := by
    rw [FileTree.read, FileTree.read, hnode]
  cases hdoc : st.files.read path with
  | error e =>
      have hopen : openRead path st = .error (.file e) st := by rw [openRead, hdoc]
      have hopen' : openRead path st' = .error (.file e) st' := by rw [openRead, hread, hdoc]
      rw [bind_error hopen, bind_error hopen']
      rfl
  | ok doc =>
      have hopen : openRead path st = .ok doc st := by rw [openRead, hdoc]
      have hopen' : openRead path st' = .ok doc st' := by rw [openRead, hread, hdoc]
      rw [bind_ok hopen, bind_ok hopen']
      exact hg doc

theorem outcome_load (h : SameReads isalnum s st st') (key : Text) :
    outcome (load isalnum s key st') = outcome (load isalnum s key st) := by
  cases hpath : keyToPath (effectiveRoot isalnum s) key with
  | none => rw [load, pathOfKey, hpath]; rfl
  | some path =>
      have hnode : st'.files.node? path = st.files.node? path := by
        obtain ⟨x, _, rfl, _⟩ := keyToPath_eq_some hpath
        exact h.nodes _ _ (dot_mem_append_suffix (by decide)) (List.prefix_append _ _)
      rw [load, pathOfKey_bind hpath, pathOfKey_bind hpath, inspect_bind, inspect_bind,
        FileTree.present, FileTree.present, hnode]
      by_cases hpresent : (st.files.node? path).isSome = true
      · rw [if_pos hpresent]
        apply outcome_openRead_bind hnode
        intro doc
        cases doc with
        | json v => rfl
        | corrupt => rfl
      · rw [if_neg hpresent]
        rfl

theorem outcome_getEmbeddings (h : SameReads isalnum s st st') :
    outcome (getEmbeddings isalnum P s st') = outcome (getEmbeddings isalnum P s st) := by
  rw [getEmbeddings, cached_bind, cached_bind, h.cached]
  cases st.scopeEmbeddings s with
  | some index => rfl
  | none =>
      have hnode : st'.files.node? (embeddingsPath isalnum s) =
          st.files.node? (embeddingsPath isalnum s) :=
        h.nodes _ _ (by decide) (List.prefix_refl _)
      have hload : outcome (loadEmbeddings isalnum P s st') =
          outcome (loadEmbeddings isalnum P s st) := by
        rw [loadEmbeddings, inspect_bind, inspect_bind, FileTree.present, FileTree.present, hnode]
        by_cases hpresent : (st.files.node? (embeddingsPath isalnum s)).isSome = true
        · rw [if_pos hpresent]
          apply outcome_openRead_bind hnode
          intro doc
          cases doc with
          | json v => rfl
          | corrupt => rfl
        · rw [if_neg hpresent]
          rfl
      have hcache : ∀ st : JsonStore V F,
          outcome ((loadEmbeddings isalnum P s >>= fun index => do
            cache s index
            pure index) st) = outcome (loadEmbeddings isalnum P s st) := by
        intro st
        cases hl : loadEmbeddings isalnum P s st with
        | ok index t =>
            rw [bind_ok hl]
            rfl
        | error e t => rw [bind_error hl]
      exact (hcache st').trans (hload.trans (hcache st).symm)

theorem outcome_searchSimilar (h : SameReads isalnum s st st') (embedding : List F)
    (limit : Nat) (keyPrefix : Text) :
    outcome (searchSimilar isalnum P s embedding limit keyPrefix st') =
      outcome (searchSimilar isalnum P s embedding limit keyPrefix st) := by
  have hindex := outcome_getEmbeddings (P := P) h
  rw [searchSimilar]
  cases hget : getEmbeddings isalnum P s st with
  | error e t =>
      cases hget' : getEmbeddings isalnum P s st' with
      | error e' t' =>
          rw [hget, hget'] at hindex
          rw [bind_error hget, bind_error hget']
          exact congrArg Except.error (Except.error.inj hindex)
      | ok index' t' =>
          rw [hget, hget'] at hindex
          cases hindex
  | ok index t =>
      cases hget' : getEmbeddings isalnum P s st' with
      | error e' t' =>
          rw [hget, hget'] at hindex
          cases hindex
      | ok index' t' =>
          rw [hget, hget'] at hindex
          cases hindex
          rw [bind_ok hget, bind_ok hget']
          split
          · rfl
          · split
            · rfl
            · rfl

theorem keysBelow_congr {root : Path} {keyPrefix : Text} {t t' : Files V}
    (h : ∀ q, Entry root t' q ↔ Entry root t q) :
    keysBelow root keyPrefix t' = keysBelow root keyPrefix t := by
  have hmem : ∀ (t : Files V) q, q ∈ (t.below root).filter listed ↔ Entry root t q := by
    intro t q
    rw [List.mem_filter, FileTree.mem_below, Entry, and_assoc]
  have hperm : ((t'.below root).filter listed).Perm ((t.below root).filter listed) := by
    rw [List.perm_ext_iff_of_nodup ((FileTree.nodup_below root).filter _)
      ((FileTree.nodup_below root).filter _)]
    intro q
    rw [hmem, hmem, h]
  apply List.Perm.eq_of_pairwise' (sorted_keysBelow _ _ _) (sorted_keysBelow _ _ _)
  rw [keysBelow, keysBelow]
  exact (List.perm_insertionSort _ _).trans
    (((hperm.map _).filter _).trans (List.perm_insertionSort _ _).symm)

theorem outcome_listKeys (h : SameReads isalnum s st st') (keyPrefix : Text) :
    outcome (listKeys isalnum s keyPrefix st') = outcome (listKeys isalnum s keyPrefix st) := by
  have hmk' := FileTree.mkdirs_congr h.root
  cases hmk : st.files.mkdirs (effectiveRoot isalnum s) with
  | error e =>
      rw [hmk] at hmk'
      rw [listKeys, bind_error (change_error hmk'), bind_error (change_error hmk)]
      rfl
  | ok u =>
      have hfold := FileTree.mkdirs_congr (t := st.files) (p := effectiveRoot isalnum s)
        fun q _ => rfl
      rw [hmk] at hmk' hfold
      rw [listKeys_eq hmk, listKeys_eq hmk']
      apply congrArg Except.ok
      apply keysBelow_congr
      intro q
      apply and_congr_right
      intro hq
      rw [and_congr_left_iff]
      intro hlisted
      have hsplit : effectiveRoot isalnum s ++ q =
          effectiveRoot isalnum s ++ q.dropLast ++ [q.getLastD []] := by
        rw [List.append_assoc]
        exact congrArg _ (split_last hq)
      have hout : effectiveRoot isalnum s ++ q ∉ (effectiveRoot isalnum s).inits := by
        rw [List.mem_inits]
        intro hle
        have hlen := hle.length_le
        have hpos := List.length_pos_iff.mpr hq
        rw [List.length_append] at hlen
        omega
      rw [Except.ok.inj hfold, FileTree.node?_foldl_ensureDir, FileTree.node?_foldl_ensureDir,
        if_neg hout, if_neg hout, hsplit,
        h.nodes _ _ (dot_of_listed hlisted) (List.prefix_append _ _)]

theorem outcome_reads (h : SameReads isalnum s st st') {op : StorageOp V F} (hop : ReadOp op) :
    outcome (perform isalnum P (s, op) st') = outcome (perform isalnum P (s, op) st) := by
  cases op with
  | load key =>
      exact (outcome_bind_pure _ _ _).trans
        ((congrArg _ (outcome_load h key)).trans (outcome_bind_pure _ _ _).symm)
  | listKeys keyPrefix =>
      exact (outcome_bind_pure _ _ _).trans
        ((congrArg _ (outcome_listKeys h keyPrefix)).trans (outcome_bind_pure _ _ _).symm)
  | searchSimilar embedding limit keyPrefix =>
      exact (outcome_bind_pure _ _ _).trans
        ((congrArg _ (outcome_searchSimilar h embedding limit keyPrefix)).trans
          (outcome_bind_pure _ _ _).symm)
  | save key data => exact absurd hop id
  | delete key => exact absurd hop id
  | saveEmbedding key embedding => exact absurd hop id

end Reads

end Engramia.Storage
