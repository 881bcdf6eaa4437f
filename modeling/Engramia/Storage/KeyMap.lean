import Engramia.Storage.Keys

/-!
The JSON store as a map from keys to documents. The abstract map answers a load
with what was last saved under exactly the key and a listing with exactly the
live keys. A store used through one scope answers like the map, for every run
over a set of keys, if and only if the keys are plain and no key's directory has
the name of a document or stands where another key keeps its working files.
-/
namespace Engramia.Storage
open Engramia.Library

variable {V F S : Type} {isalnum : Char → Bool} {P : Platform V F S} {s : Scope}

abbrev KeyMap (V : Type) := Text → Option V

/-- The operations of the map, on keys of a set. -/
def MapOp (K : Set Text) : StorageOp V F → Prop
  | .load key => key ∈ K
  | .save key _ => key ∈ K
  | .delete key => key ∈ K
  | .listKeys _ => True
  | _ => False

def KeyMap.next (m : KeyMap V) : StorageOp V F → KeyMap V
  | .save key data => fun k => if k = key then some data else m k
  | .delete key => fun k => if k = key then none else m k
  | _ => m

/-- The answer the map gives. -/
def KeyMap.Answers (m : KeyMap V) (op : StorageOp V F)
    (answer : Except StorageError (Response V S)) : Prop :=
  match op with
  | .load key => answer = .ok (.value (m key))
  | .listKeys keyPrefix => ∃ keys, answer = .ok (.keys keys) ∧
      keys.Pairwise (· ≤ ·) ∧ keys.Nodup ∧ ∀ k, k ∈ keys ↔ m k ≠ none ∧ keyPrefix <+: k
  | _ => answer = .ok .done

/-- Every operation of a run is answered as the map answers it. -/
def Faithful (isalnum : Char → Bool) (P : Platform V F S) (s : Scope) :
    JsonStore V F → KeyMap V → List (StorageOp V F) → Prop
  | _, _, [] => True
  | st, m, op :: ops =>
      m.Answers op (outcome (perform isalnum P (s, op) st)) ∧
        Faithful isalnum P s (final (perform isalnum P (s, op) st)) (m.next op) ops

def ActsAsMap (isalnum : Char → Bool) (P : Platform V F S) (s : Scope) (K : Set Text) : Prop :=
  ∀ ops : List (StorageOp V F), (∀ op ∈ ops, MapOp K op) →
    Faithful isalnum P s newStore (fun _ => none) ops

def patternsPrefix : Text := ['p', 'a', 't', 't', 'e', 'r', 'n', 's', '/']

/-- The keys `import_data` accepts. -/
def AcceptedKey (key : Text) : Prop :=
  patternsPrefix <+: key ∧ ¬ ['.', '.'] <:+: key

instance (key : Text) : Decidable (AcceptedKey key) :=
  inferInstanceAs (Decidable (_ ∧ _))

/-- Plain keys whose directories have no document's name and keep clear of the
files other keys are written through. -/
structure ClearKeys (K : Set Text) : Prop where
  plain : ∀ k ∈ K, PlainKey k
  unlisted : ∀ k ∈ K, ∀ d, d ≠ [] → d <+: keyDir k → listed d = false
  clear : ∀ k ∈ K, ∀ k' ∈ K, ¬ tmpFile (keyDir k') (keyName k') <+: keyDir k ∧
    ¬ bakFile (keyDir k') (keyName k') <+: keyDir k

theorem AcceptedKey.keyDir_eq {key : Text} (h : AcceptedKey key) :
    ∃ rest, keyDir key = ['p', 'a', 't', 't', 'e', 'r', 'n', 's'] :: rest := by
  obtain ⟨rest, rfl⟩ := h.1
  have hsplit : (patternsPrefix ++ rest).splitOn '/' =
      ['p', 'a', 't', 't', 'e', 'r', 'n', 's'] :: rest.splitOn '/' := by
    have hmem : '/' ∉ ['p', 'a', 't', 't', 'e', 'r', 'n', 's'] := by decide
    exact List.splitOn_append_cons_self_of_not_mem hmem rest
  refine ⟨(rest.splitOn '/').dropLast, ?_⟩
  rw [keyDir, hsplit, List.dropLast_cons_of_ne_nil (List.splitOn_ne_nil _ _)]

/-- What a store that acts as a map looks like: the documents of the live keys,
backups, the directories these lie in, and no embeddings. -/
structure Represents (isalnum : Char → Bool) (s : Scope) (K : Set Text)
    (st : JsonStore V F) (m : KeyMap V) : Prop where
  grounded : st.files.Grounded
  documents : ∀ k ∈ K, st.files.node? (dataFile (effectiveRoot isalnum s ++ keyDir k) (keyName k)) =
    (m k).map fun v => .file (.json v)
  outside : ∀ k, k ∉ K → m k = none
  shape : ∀ p, st.files.node? p ≠ none →
    (st.files.node? p = some .dir ∧
      (p <+: effectiveRoot isalnum s ∨ ∃ k ∈ K, p <+: effectiveRoot isalnum s ++ keyDir k)) ∨
    (st.files.node? p ≠ some .dir ∧ ∃ k ∈ K,
      p = dataFile (effectiveRoot isalnum s ++ keyDir k) (keyName k) ∨
      p = bakFile (effectiveRoot isalnum s ++ keyDir k) (keyName k))
  embeddings : ∀ index, st.scopeEmbeddings s = some index → index = .empty

theorem represents_newStore (K : Set Text) :
    Represents isalnum s K (newStore : JsonStore V F) fun _ => none := by
  have hnode : ∀ p, p ≠ [] → (newStore : JsonStore V F).files.node? p = none :=
    fun p hp => FileTree.node?_of_ne_nil hp
  refine ⟨FileTree.grounded_empty, ?_, fun _ _ => rfl, ?_, ?_⟩
  · intro k _
    exact hnode _ (List.append_ne_nil_of_right_ne_nil _ (List.cons_ne_nil _ _))
  · intro p hp
    have hnil : p = [] := Classical.byContradiction fun hne => hp (hnode p hne)
    subst hnil
    exact .inl ⟨rfl, .inl List.nil_prefix⟩
  · intro index hindex
    by_cases hs : s = defaultScope
    · have hempty : (newStore : JsonStore V F).scopeEmbeddings s = some .empty := if_pos hs
      exact Option.some.inj (hindex.symm.trans hempty)
    · have hnone : (newStore : JsonStore V F).scopeEmbeddings s = none := if_neg hs
      rw [hnone] at hindex
      cases hindex

section Paths
variable {root dir dir' : Path} {x x' : Text}

theorem sibling_append (root dir : Path) (n : Text) : root ++ dir ++ [n] = root ++ (dir ++ [n]) :=
  List.append_assoc _ _ _

theorem not_within_root {n : Text} : ¬ root ++ dir ++ [n] <+: root := by
  intro h
  have hlen := h.length_le
  rw [List.length_append, List.length_append, List.length_singleton] at hlen
  omega

theorem bakFile_ne_any_dataFile : bakFile dir x ≠ dataFile dir' x' := by
  intro h
  have hlast := congrArg List.getLast? (sibling_inj h).2
  rw [List.getLast?_append_of_ne_nil _ (by decide), List.getLast?_append_of_ne_nil _ (by decide)]
    at hlast
  exact absurd hlast (by decide)

theorem tmpFile_ne_any_dataFile : tmpFile dir x ≠ dataFile dir' x' := by
  intro h
  have hlast := congrArg List.getLast? (sibling_inj h).2
  rw [List.getLast?_append_of_ne_nil _ (by decide), List.getLast?_append_of_ne_nil _ (by decide)]
    at hlast
  exact absurd hlast (by decide)

theorem listed_bakFile : listed (bakFile dir x) = false := by
  have hsuffix : jsonSuffix.isSuffixOf (x ++ bakSuffix) = false := by
    rw [Bool.eq_false_iff, ne_eq, List.isSuffixOf_iff_suffix]
    intro h
    obtain ⟨y, hy⟩ := h
    have hlast := congrArg List.getLast? hy
    rw [List.getLast?_append_of_ne_nil _ (by decide), List.getLast?_append_of_ne_nil _ (by decide)]
      at hlast
    exact absurd hlast (by decide)
  rw [listed, bakFile, List.getLastD_concat, hsuffix]
  rfl

end Paths

section Steps
variable {K : Set Text} {st : JsonStore V F} {m : KeyMap V} {key key' : Text}

theorem ClearKeys.dataFile_not_above (hK : ClearKeys K) (hk : key ∈ K) (hk' : key' ∈ K)
    (root : Path) : ¬ dataFile (root ++ keyDir key) (keyName key) <+: root ++ keyDir key' := by
  intro h
  rw [dataFile, sibling_append, List.prefix_append_right_inj] at h
  have hunlisted : listed (dataFile (keyDir key) (keyName key)) = false :=
    hK.unlisted key' hk' _ dataFile_ne_nil h
  rw [(hK.plain key hk).listed] at hunlisted
  cases hunlisted

theorem ClearKeys.tmpFile_not_above (hK : ClearKeys K) (hk : key ∈ K) (hk' : key' ∈ K)
    (root : Path) : ¬ tmpFile (root ++ keyDir key) (keyName key) <+: root ++ keyDir key' := by
  rw [tmpFile, sibling_append, List.prefix_append_right_inj]
  exact (hK.clear key' hk' key hk).1

theorem ClearKeys.bakFile_not_above (hK : ClearKeys K) (hk : key ∈ K) (hk' : key' ∈ K)
    (root : Path) : ¬ bakFile (root ++ keyDir key) (keyName key) <+: root ++ keyDir key' := by
  rw [bakFile, sibling_append, List.prefix_append_right_inj]
  exact (hK.clear key' hk' key hk).2

/-- A name that no directory of the store starts with is not a directory. -/
theorem Represents.not_dir (h : Represents isalnum s K st m) {n : Text} {dir : Path}
    (hclear : ∀ k ∈ K, ¬ effectiveRoot isalnum s ++ dir ++ [n] <+:
      effectiveRoot isalnum s ++ keyDir k) :
    st.files.node? (effectiveRoot isalnum s ++ dir ++ [n]) ≠ some .dir := by
  intro hdir
  have hne : st.files.node? (effectiveRoot isalnum s ++ dir ++ [n]) ≠ none := by
    rw [hdir]
    exact Option.some_ne_none _
  cases h.shape _ hne with
  | inl hin =>
      cases hin.2 with
      | inl hroot => exact not_within_root hroot
      | inr hk =>
          obtain ⟨k, hk, hpre⟩ := hk
          exact hclear k hk hpre
  | inr hfile => exact hfile.1 hdir

theorem Represents.writable (h : Represents isalnum s K st m) (hK : ClearKeys K) (hk : key ∈ K) :
    Writable st.files (effectiveRoot isalnum s ++ keyDir key) (keyName key) where
  grounded := h.grounded
  free := by
    intro q hq
    cases hn : st.files.node? q with
    | none => rw [FileTree.isFile, hn]
    | some n =>
        cases n with
        | dir => rw [FileTree.isFile, hn]
        | file c =>
            have hne : st.files.node? q ≠ none := by rw [hn]; exact Option.some_ne_none _
            cases h.shape q hne with
            | inl hdir => rw [hn] at hdir; cases hdir.1
            | inr hfile =>
                obtain ⟨k, hk', hq'⟩ := hfile.2
                cases hq' with
                | inl hq' =>
                    rw [hq'] at hq
                    exact absurd hq (hK.dataFile_not_above hk' hk _)
                | inr hq' =>
                    rw [hq'] at hq
                    exact absurd hq (hK.bakFile_not_above hk' hk _)
  data := h.not_dir fun _ hk' => hK.dataFile_not_above hk hk' _
  tmp := h.not_dir fun _ hk' => hK.tmpFile_not_above hk hk' _
  bak := h.not_dir fun _ hk' => hK.bakFile_not_above hk hk' _

theorem Represents.load (h : Represents isalnum s K st m) (hK : ClearKeys K) (hk : key ∈ K) :
    perform isalnum P (s, .load key) st = .ok (.value (m key)) st := by
  have hpath := (hK.plain key hk).keyToPath_eq (effectiveRoot isalnum s)
  have hdoc := h.documents key hk
  have hload : Storage.load isalnum s key st = .ok (m key) st := by
    cases hm : m key with
    | none => rw [hm] at hdoc; exact load_missing hpath hdoc
    | some v => rw [hm] at hdoc; exact load_json hpath hdoc
  exact bind_ok hload

theorem Represents.save (h : Represents isalnum s K st m) (hK : ClearKeys K) (hk : key ∈ K)
    (data : V) :
    ∃ st', perform isalnum P (s, .save key data) st = .ok .done st' ∧
      Represents isalnum s K st' (m.next (.save key data : StorageOp V F)) := by
  have hpath := (hK.plain key hk).keyToPath_eq (effectiveRoot isalnum s)
  obtain ⟨u, hu, hg, hnode⟩ :=
    atomicWrite_spec (hK.plain key hk).keyName_ne_nil (h.writable hK hk) data
  refine ⟨{ st with files := u }, bind_ok ((save_eq hpath data).trans hu), hg, ?_, ?_, ?_,
    h.embeddings⟩
  · intro k hk'
    show u.node? _ = Option.map _ (if k = key then some data else m k)
    by_cases hkey : k = key
    · rw [if_pos hkey, hkey, hnode, if_pos rfl]
      rfl
    · have hne : dataFile (effectiveRoot isalnum s ++ keyDir k) (keyName k) ≠
          dataFile (effectiveRoot isalnum s ++ keyDir key) (keyName key) :=
        fun heq => hkey ((hK.plain k hk').inj (hK.plain key hk) heq)
      rw [if_neg hkey, hnode, if_neg hne, if_neg tmpFile_ne_any_dataFile.symm,
        if_neg bakFile_ne_any_dataFile.symm, if_neg (hK.dataFile_not_above hk' hk _),
        h.documents k hk']
  · intro k hk'
    show (if k = key then some data else m k) = none
    have hne : k ≠ key := fun heq => hk' (by rw [heq]; exact hk)
    rw [if_neg hne, h.outside k hk']
  · intro p hp
    show (u.node? p = some .dir ∧ _) ∨ (u.node? p ≠ some .dir ∧ _)
    by_cases hdata : p = dataFile (effectiveRoot isalnum s ++ keyDir key) (keyName key)
    · refine .inr ⟨?_, key, hk, .inl hdata⟩
      rw [hnode, if_pos hdata]
      intro heq
      cases heq
    · have hp' := hp
      rw [hnode, if_neg hdata] at hp'
      rw [hnode, if_neg hdata]
      by_cases htmp : p = tmpFile (effectiveRoot isalnum s ++ keyDir key) (keyName key)
      · rw [if_pos htmp] at hp'
        exact absurd rfl hp'
      · rw [if_neg htmp] at hp' ⊢
        by_cases hbak : p = bakFile (effectiveRoot isalnum s ++ keyDir key) (keyName key)
        · refine .inr ⟨?_, key, hk, .inr hbak⟩
          rw [if_pos hbak]
          by_cases hpres : st.files.present
              (dataFile (effectiveRoot isalnum s ++ keyDir key) (keyName key)) = true
          · rw [if_pos hpres]
            exact (h.writable hK hk).data
          · rw [if_neg hpres]
            exact (h.writable hK hk).bak
        · rw [if_neg hbak] at hp' ⊢
          by_cases hdir : p <+: effectiveRoot isalnum s ++ keyDir key
          · rw [if_pos hdir]
            exact .inl ⟨rfl, .inr ⟨key, hk, hdir⟩⟩
          · rw [if_neg hdir] at hp' ⊢
            exact h.shape p hp'

theorem Represents.removed (h : Represents isalnum s K st m) {u : Files V} (hg : u.Grounded)
    (hgone : ∀ p, u.node? p = none ∨ u.node? p = st.files.node? p)
    (hdata : u.node? (dataFile (effectiveRoot isalnum s ++ keyDir key) (keyName key)) = none)
    (hothers : ∀ k ∈ K, k ≠ key →
      u.node? (dataFile (effectiveRoot isalnum s ++ keyDir k) (keyName k)) =
        st.files.node? (dataFile (effectiveRoot isalnum s ++ keyDir k) (keyName k))) :
    Represents isalnum s K { st with files := u } (m.next (.delete key : StorageOp V F)) := by
  refine ⟨hg, ?_, ?_, ?_, h.embeddings⟩
  · intro k hk
    show u.node? _ = Option.map _ (if k = key then none else m k)
    by_cases hkey : k = key
    · rw [if_pos hkey, hkey]
      exact hdata
    · rw [if_neg hkey, hothers k hk hkey, h.documents k hk]
  · intro k hk
    show (if k = key then none else m k) = none
    by_cases hkey : k = key
    · rw [if_pos hkey]
    · rw [if_neg hkey, h.outside k hk]
  · intro p hp
    cases hgone p with
    | inl hnone => exact absurd hnone hp
    | inr heq =>
        have heq' : FileTree.node? ({ st with files := u } : JsonStore V F).files p =
          st.files.node? p := heq
        rw [heq'] at hp ⊢
        exact h.shape p hp

theorem Represents.no_embeddingsFile (h : Represents isalnum s K st m)
    (hacc : ∀ k ∈ K, AcceptedKey k) :
    st.files.node? (embeddingsPath isalnum s) = none := by
  cases hn : st.files.node? (embeddingsPath isalnum s) with
  | none => rfl
  | some n =>
      exfalso
      have hne : st.files.node? (embeddingsPath isalnum s) ≠ none := by
        rw [hn]
        exact Option.some_ne_none _
      have hhead : ∀ k ∈ K, ∀ q q', embeddingsPath isalnum s ++ q ≠
          effectiveRoot isalnum s ++ keyDir k ++ q' := by
        intro k hk q q' heq
        obtain ⟨rest, hrest⟩ := (hacc k hk).keyDir_eq
        rw [embeddingsPath, List.append_assoc, List.append_assoc, hrest] at heq
        have hfirst := (List.cons.inj (List.append_cancel_left heq)).1
        exact absurd hfirst (by decide)
      cases h.shape _ hne with
      | inl hdir =>
          cases hdir.2 with
          | inl hroot =>
              have hlen := hroot.length_le
              rw [embeddingsPath, List.length_append, List.length_singleton] at hlen
              omega
          | inr hk =>
              obtain ⟨k, hk, q, hq⟩ := hk
              exact hhead k hk q [] (by rw [hq, List.append_nil])
      | inr hfile =>
          obtain ⟨k, hk, hpath⟩ := hfile.2
          cases hpath with
          | inl hpath => exact hhead k hk [] _ (by rw [List.append_nil]; exact hpath)
          | inr hpath => exact hhead k hk [] _ (by rw [List.append_nil]; exact hpath)

theorem Represents.getEmbeddings (h : Represents isalnum s K st m)
    (hacc : ∀ k ∈ K, AcceptedKey k) :
    ∃ st', Storage.getEmbeddings isalnum P s st = .ok .empty st' ∧
      Represents isalnum s K st' m := by
  cases hc : st.scopeEmbeddings s with
  | some index =>
      have hempty := h.embeddings index hc
      refine ⟨st, ?_, h⟩
      rw [Storage.getEmbeddings, cached_bind, hc, hempty]
      rfl
  | none =>
      have hpres : ¬ st.files.present (embeddingsPath isalnum s) = true := by
        rw [FileTree.present, h.no_embeddingsFile hacc]
        exact Bool.false_ne_true
      have hload : loadEmbeddings isalnum P s st = .ok .empty st := by
        rw [loadEmbeddings, inspect_bind, if_neg hpres]
        rfl
      refine ⟨final (cache s .empty st), ?_, ?_⟩
      · rw [Storage.getEmbeddings, cached_bind, hc]
        show (loadEmbeddings isalnum P s >>= fun index => do cache s index; pure index) st = _
        rw [bind_ok hload]
        rfl
      · refine ⟨h.grounded, h.documents, h.outside, h.shape, ?_⟩
        intro index hindex
        have hself : (if s = s then some (.empty : Index F) else st.scopeEmbeddings s) =
            some index := hindex
        rw [if_pos rfl] at hself
        exact (Option.some.inj hself).symm

theorem Represents.delete (h : Represents isalnum s K st m) (hK : ClearKeys K)
    (hacc : ∀ k ∈ K, AcceptedKey k) (hk : key ∈ K) :
    ∃ st', perform isalnum P (s, .delete key) st = .ok .done st' ∧
      Represents isalnum s K st' (m.next (.delete key : StorageOp V F)) := by
  have hplain := hK.plain key hk
  have hpath := hplain.keyToPath_eq (effectiveRoot isalnum s)
  have hw := h.writable hK hk
  obtain ⟨u1, h1, hg1, hn1⟩ := unlinkIfPresent_spec st
    (dataFile (effectiveRoot isalnum s ++ keyDir key) (keyName key)) hw.grounded hw.data
  obtain ⟨u2, h2, hg2, hn2⟩ := unlinkIfPresent_spec { st with files := u1 }
    (bakFile (effectiveRoot isalnum s ++ keyDir key) (keyName key)) hg1
    (by rw [hn1, if_neg bakFile_ne_dataFile]; exact hw.bak)
  obtain ⟨u3, h3, hg3, hn3⟩ := unlinkIfPresent_spec { st with files := u2 }
    (tmpFile (effectiveRoot isalnum s ++ keyDir key) (keyName key)) hg2
    (by rw [hn2, if_neg bakFile_ne_tmpFile.symm, hn1, if_neg tmpFile_ne_dataFile]; exact hw.tmp)
  have hremoved : Represents isalnum s K { st with files := u3 }
      (m.next (.delete key : StorageOp V F)) := by
    apply h.removed hg3
    · intro p
      rw [hn3, hn2, hn1]
      by_cases htmp : p = tmpFile (effectiveRoot isalnum s ++ keyDir key) (keyName key)
      · rw [if_pos htmp]
        exact .inl rfl
      · rw [if_neg htmp]
        by_cases hbak : p = bakFile (effectiveRoot isalnum s ++ keyDir key) (keyName key)
        · rw [if_pos hbak]
          exact .inl rfl
        · rw [if_neg hbak]
          by_cases hdata : p = dataFile (effectiveRoot isalnum s ++ keyDir key) (keyName key)
          · rw [if_pos hdata]
            exact .inl rfl
          · rw [if_neg hdata]
            exact .inr rfl
    · rw [hn3, if_neg tmpFile_ne_dataFile.symm, hn2, if_neg bakFile_ne_dataFile.symm, hn1,
        if_pos rfl]
    · intro k hk' hne
      have hpathne : dataFile (effectiveRoot isalnum s ++ keyDir k) (keyName k) ≠
          dataFile (effectiveRoot isalnum s ++ keyDir key) (keyName key) :=
        fun heq => hne ((hK.plain k hk').inj hplain heq)
      rw [hn3, if_neg tmpFile_ne_any_dataFile.symm, hn2, if_neg bakFile_ne_any_dataFile.symm,
        hn1, if_neg hpathne]
  obtain ⟨st', hget, hrep⟩ := hremoved.getEmbeddings (P := P) hacc
  refine ⟨st', ?_, hrep⟩
  have hdelete : Storage.delete isalnum P s key st = .ok () st' := by
    rw [Storage.delete, pathOfKey_bind hpath, withSuffix_bak hplain.keyName_ne_nil,
      withSuffix_tmp hplain.keyName_ne_nil, bind_ok h1, bind_ok h2, bind_ok h3, bind_ok hget]
    rfl
  exact bind_ok hdelete

theorem Represents.reported (h : Represents isalnum s K st m) (hK : ClearKeys K) {q : Path}
    (hq : q ≠ []) (hn : st.files.node? (effectiveRoot isalnum s ++ q) ≠ none)
    (hl : listed q = true) :
    ∃ k ∈ K, q = dataFile (keyDir k) (keyName k) ∧ m k ≠ none := by
  cases h.shape _ hn with
  | inl hdir =>
      cases hdir.2 with
      | inl hroot =>
          have hlen := hroot.length_le
          have hpos := List.length_pos_iff.mpr hq
          rw [List.length_append] at hlen
          omega
      | inr hk =>
          obtain ⟨k, hk, hpre⟩ := hk
          rw [List.prefix_append_right_inj] at hpre
          rw [hK.unlisted k hk q hq hpre] at hl
          cases hl
  | inr hfile =>
      obtain ⟨k, hk, hpath⟩ := hfile.2
      cases hpath with
      | inl hpath =>
          refine ⟨k, hk, ?_, ?_⟩
          · rw [dataFile, sibling_append] at hpath
            exact List.append_cancel_left hpath
          · intro hm
            rw [hpath, h.documents k hk, hm] at hn
            exact hn rfl
      | inr hpath =>
          rw [bakFile, sibling_append] at hpath
          rw [List.append_cancel_left hpath] at hl
          exact absurd (listed_bakFile.symm.trans hl) Bool.false_ne_true

theorem Represents.madeRoot (h : Represents isalnum s K st m) :
    ∃ u, st.files.mkdirs (effectiveRoot isalnum s) = .ok u ∧
      Represents isalnum s K { st with files := u } m := by
  have hfree : ∀ q, q <+: effectiveRoot isalnum s → st.files.isFile q = false := by
    intro q hq
    cases hf : st.files.isFile q with
    | false => rfl
    | true =>
        have hn : st.files.node? q ≠ none := by
          intro hnone
          rw [FileTree.isFile, hnone] at hf
          cases hf
        cases h.shape q hn with
        | inl hdir =>
            rw [FileTree.isFile, hdir.1] at hf
            cases hf
        | inr hfile =>
            obtain ⟨k, -, hpath⟩ := hfile.2
            cases hpath with
            | inl hpath => exact absurd (hpath ▸ hq) not_within_root
            | inr hpath => exact absurd (hpath ▸ hq) not_within_root
  obtain ⟨u, hu, hg, hnode⟩ := FileTree.mkdirs_spec h.grounded hfree
  refine ⟨u, hu, hg, ?_, h.outside, ?_, h.embeddings⟩
  · intro k hk
    have hout : ¬ dataFile (effectiveRoot isalnum s ++ keyDir k) (keyName k) <+:
      effectiveRoot isalnum s := not_within_root
    show u.node? _ = _
    rw [hnode, if_neg hout, h.documents k hk]
  · intro p hp
    show (u.node? p = some .dir ∧ _) ∨ (u.node? p ≠ some .dir ∧ _)
    have hp' : u.node? p ≠ none := hp
    rw [hnode] at hp' ⊢
    by_cases hroot : p <+: effectiveRoot isalnum s
    · rw [if_pos hroot]
      exact .inl ⟨rfl, .inl hroot⟩
    · rw [if_neg hroot] at hp' ⊢
      exact h.shape p hp'

theorem Represents.listKeys (h : Represents isalnum s K st m) (hK : ClearKeys K)
    (keyPrefix : Text) :
    ∃ st' keys, perform isalnum P (s, .listKeys keyPrefix) st = .ok (.keys keys) st' ∧
      Represents isalnum s K st' m ∧ keys.Pairwise (· ≤ ·) ∧ keys.Nodup ∧
      ∀ k, k ∈ keys ↔ m k ≠ none ∧ keyPrefix <+: k := by
  obtain ⟨u, hu, hrep⟩ := h.madeRoot
  refine ⟨{ st with files := u }, keysBelow (effectiveRoot isalnum s) keyPrefix u,
    bind_ok (listKeys_eq hu), hrep, sorted_keysBelow _ _ _, ?_, ?_⟩
  · apply nodup_keysBelow
    intro q hq q' hq' hl hl' heq
    have hq := FileTree.mem_below.mp hq
    have hq' := FileTree.mem_below.mp hq'
    obtain ⟨k, hk, rfl, -⟩ := hrep.reported hK hq.1 hq.2 hl
    obtain ⟨k', hk', rfl, -⟩ := hrep.reported hK hq'.1 hq'.2 hl'
    rw [(hK.plain k hk).pathToKey_eq, (hK.plain k' hk').pathToKey_eq] at heq
    rw [heq]
  · intro k
    rw [mem_keysBelow]
    constructor
    · intro hmem
      obtain ⟨hpre, q, hq, hn, hl, hkey⟩ := hmem
      obtain ⟨k', hk', rfl, hlive⟩ := hrep.reported hK hq hn hl
      rw [(hK.plain k' hk').pathToKey_eq] at hkey
      rw [← hkey] at hpre ⊢
      exact ⟨hlive, hpre⟩
    · intro hlive
      have hk : k ∈ K := Classical.byContradiction fun hk => hlive.1 (hrep.outside k hk)
      have hplain := hK.plain k hk
      refine ⟨hlive.2, dataFile (keyDir k) (keyName k),
        List.append_ne_nil_of_right_ne_nil _ (List.cons_ne_nil _ _), ?_, hplain.listed,
        hplain.pathToKey_eq⟩
      have hdoc := hrep.documents k hk
      rw [dataFile, sibling_append] at hdoc
      rw [dataFile, hdoc]
      cases hm : m k with
      | none => exact absurd hm hlive.1
      | some v => intro heq; cases heq

/-- One operation answers as the map does and leaves a store that represents the
next map. -/
theorem Represents.step (h : Represents isalnum s K st m) (hK : ClearKeys K)
    (hacc : ∀ k ∈ K, AcceptedKey k) {op : StorageOp V F} (hop : MapOp K op) :
    m.Answers op (outcome (perform isalnum P (s, op) st)) ∧
      Represents isalnum s K (final (perform isalnum P (s, op) st)) (m.next op) := by
  cases op with
  | load key =>
      rw [h.load hK hop]
      exact ⟨rfl, h⟩
  | save key data =>
      obtain ⟨st', hst', hrep⟩ := h.save (P := P) hK hop data
      rw [hst']
      exact ⟨rfl, hrep⟩
  | listKeys keyPrefix =>
      obtain ⟨st', keys, hst', hrep, hkeys⟩ := h.listKeys (P := P) hK keyPrefix
      rw [hst']
      exact ⟨⟨keys, rfl, hkeys⟩, hrep⟩
  | delete key =>
      obtain ⟨st', hst', hrep⟩ := h.delete (P := P) hK hacc hop
      rw [hst']
      exact ⟨rfl, hrep⟩
  | saveEmbedding key embedding => exact hop.elim
  | searchSimilar embedding limit keyPrefix => exact hop.elim

theorem Represents.faithful (h : Represents isalnum s K st m) (hK : ClearKeys K)
    (hacc : ∀ k ∈ K, AcceptedKey k) {ops : List (StorageOp V F)}
    (hops : ∀ op ∈ ops, MapOp K op) : Faithful isalnum P s st m ops := by
  induction ops generalizing st m with
  | nil => trivial
  | cons op ops ih =>
      have hstep := h.step (P := P) hK hacc (hops op List.mem_cons_self)
      exact ⟨hstep.1, ih hstep.2 fun op' hop' => hops op' (List.mem_cons_of_mem op hop')⟩

end Steps

section Converse
variable {K : Set Text} {key key' : Text}

/-- As many segments as a key has parts, unless it has a backslash. -/
theorem keyParts_length_le (h : '\\' ∉ key) : (keyParts key).length ≤ (key.splitOn '/').length := by
  rw [keyParts, slashes_of_not_mem h]
  exact List.length_filter_le _ _

/-- A directory on the way to a key's document is not reported as the key. -/
theorem pathToKey_dir_ne {d : Path} (hd : d ≠ []) (hpre : d <+: (keyParts key).dropLast)
    (hparts : keyParts key ≠ []) : pathToKey d ≠ key := by
  intro hkey
  have hback : '\\' ∉ key := by
    rw [← hkey, pathToKey]
    exact not_mem_slashes _
  have hclean : ∀ n ∈ d, CleanName n := fun n hn =>
    cleanName_of_mem_keyParts (List.mem_of_mem_dropLast (hpre.subset hn))
  have hsplit : d = d.dropLast ++ [d.getLast hd] := (List.dropLast_append_getLast hd).symm
  have hsegments : (key.splitOn '/').length = d.length := by
    rw [← hkey, hsplit, splitOn_pathToKey
      (fun n hn => hclean n (List.mem_of_mem_dropLast hn)) (hclean _ (List.getLast_mem hd))]
    simp
  have hle := keyParts_length_le hback
  have hlen := hpre.length_le
  have hpos := List.length_pos_iff.mpr hparts
  rw [List.length_dropLast] at hlen
  omega

variable (hmap : ActsAsMap isalnum P s K) (hk : key ∈ K)
include hmap hk

/-- A key on which the store acts as a map is one that a save accepts. -/
theorem keyParts_ne_nil_of_actsAsMap : keyParts key ≠ [] := by
  intro hparts
  have hop : ∀ op ∈ ([.save key (P.ofIndex .empty)] : List (StorageOp V F)), MapOp K op :=
    List.forall_mem_cons.mpr ⟨hk, List.forall_mem_nil _⟩
  have hrun : outcome (perform isalnum P (s, .save key (P.ofIndex .empty)) newStore) =
      .ok .done := (hmap _ hop).1
  have hnone : keyToPath (effectiveRoot isalnum s) key = none := by
    rw [keyToPath, if_pos hparts]
  have herror : perform isalnum P (s, .save key (P.ofIndex .empty)) newStore =
      .error .invalidKey newStore := by
    apply bind_error
    rw [save, pathOfKey, hnone]
    rfl
  rw [herror] at hrun
  cases hrun

/-- What the first listing after the first save shows about the key. -/
theorem reported_of_actsAsMap :
    PlainKey key ∧ ∀ d, d ≠ [] → d <+: keyDir key → listed d = false := by
  have hparts := keyParts_ne_nil_of_actsAsMap hmap hk
  obtain ⟨path, hpath⟩ : ∃ path, keyToPath (effectiveRoot isalnum s) key = some path :=
    ⟨_, if_neg hparts⟩
  obtain ⟨x, hx, hdata, hstem⟩ := keyToPath_eq_some hpath
  have hpath' : keyToPath (effectiveRoot isalnum s) key =
      some (dataFile (effectiveRoot isalnum s ++ (keyParts key).dropLast) x) := by
    rw [hpath, hdata]
    rfl
  obtain ⟨u, hsave, hg, hnode⟩ := save_newStore isalnum P s (P.ofIndex .empty) hpath' hx
  have hfree : ∀ q, q <+: effectiveRoot isalnum s → u.isFile q = false := by
    intro q hq
    rw [FileTree.isFile]
    by_cases hnil : q = []
    · rw [hnil, FileTree.node?_nil]
    · have hne : q ≠ dataFile (effectiveRoot isalnum s ++ (keyParts key).dropLast) x := by
        intro heq
        rw [heq] at hq
        exact not_within_root hq
      rw [hnode q hnil, if_neg hne, if_pos (hq.trans (List.prefix_append _ _))]
  -- listing makes the root directory, which changes nothing below it
  obtain ⟨u', hmk, -, hnode'⟩ := FileTree.mkdirs_spec hg hfree
  have hops : ∀ op ∈ ([.save key (P.ofIndex .empty), .listKeys []] : List (StorageOp V F)),
      MapOp K op :=
    List.forall_mem_cons.mpr ⟨hk, List.forall_mem_cons.mpr ⟨trivial, List.forall_mem_nil _⟩⟩
  have hrun := (hmap _ hops).2.1
  have hlist : perform isalnum P (s, .listKeys []) { (newStore : JsonStore V F) with files := u } =
      .ok (.keys (keysBelow (effectiveRoot isalnum s) [] u'))
        { (newStore : JsonStore V F) with files := u' } := bind_ok (listKeys_eq hmk)
  rw [hsave, final, hlist] at hrun
  obtain ⟨keys, hkeys, -, -, hmem⟩ := hrun
  have hkeys' : keysBelow (effectiveRoot isalnum s) [] u' = keys :=
    Response.keys.inj (Except.ok.inj hkeys)
  have honly : ∀ k, k ∈ keysBelow (effectiveRoot isalnum s) [] u' ↔ k = key := by
    intro k
    rw [hkeys', hmem]
    show (if k = key then some (P.ofIndex .empty) else none) ≠ none ∧ _ ↔ _
    by_cases hkey : k = key <;> simp [hkey]
  have hbelow : ∀ q, q ≠ [] → u'.node? (effectiveRoot isalnum s ++ q) =
      if q = dataFile (keyParts key).dropLast x then some (.file (.json (P.ofIndex .empty)))
      else if q <+: (keyParts key).dropLast then some .dir else none := by
    intro q hq
    have hout : ¬ effectiveRoot isalnum s ++ q <+: effectiveRoot isalnum s := by
      intro h
      have hlen := h.length_le
      have hpos := List.length_pos_iff.mpr hq
      rw [List.length_append] at hlen
      omega
    have hiff : effectiveRoot isalnum s ++ q =
        dataFile (effectiveRoot isalnum s ++ (keyParts key).dropLast) x ↔
        q = dataFile (keyParts key).dropLast x := by
      rw [dataFile, sibling_append, List.append_cancel_left_eq]
      rfl
    rw [hnode', if_neg hout, hnode _ (List.append_ne_nil_of_right_ne_nil _ hq),
      if_congr hiff rfl rfl, if_congr (List.prefix_append_right_inj _) rfl rfl]
  have hdirs : ∀ d, d ≠ [] → d <+: (keyParts key).dropLast → listed d = false := by
    intro d hd hpre
    cases hl : listed d with
    | false => rfl
    | true =>
        have hne : d ≠ dataFile (keyParts key).dropLast x := by
          intro heq
          rw [heq] at hpre
          exact sibling_not_above _ hpre
        have hpresent : u'.node? (effectiveRoot isalnum s ++ d) ≠ none := by
          rw [hbelow d hd, if_neg hne, if_pos hpre]
          exact Option.some_ne_none _
        have hkey := (honly _).mp (mem_keysBelow.mpr ⟨ List.nil_prefix, d, hd, hpresent, hl, rfl⟩)
        exact absurd hkey (pathToKey_dir_ne hd hpre hparts)
  obtain ⟨-, q, hq, hn, hl, hkey⟩ := mem_keysBelow.mp ((honly key).mpr rfl)
  have hplain : PlainKey key := by
    rw [hbelow q hq] at hn
    by_cases hqd : q = dataFile (keyParts key).dropLast x
    · rw [hqd] at hl hkey
      exact plainKey_of_reported hstem hparts hx hl hkey
    · rw [if_neg hqd] at hn
      by_cases hpre : q <+: (keyParts key).dropLast
      · exact absurd hkey (pathToKey_dir_ne hq hpre hparts)
      · rw [if_neg hpre] at hn
        exact absurd rfl hn
  refine ⟨hplain, ?_⟩
  have hdir : (keyParts key).dropLast = keyDir key := by
    rw [hplain.keyParts_eq, List.dropLast_concat]
  rw [← hdir]
  exact hdirs

/-- Deleting one key after saving another shows that the directories of the one
keep clear of the working files of the other. -/
theorem clear_of_actsAsMap (hk' : key' ∈ K) :
    ¬ tmpFile (keyDir key') (keyName key') <+: keyDir key ∧
      ¬ bakFile (keyDir key') (keyName key') <+: keyDir key := by
  have hplain := (reported_of_actsAsMap hmap hk).1
  have hplain' := (reported_of_actsAsMap hmap hk').1
  have hpath := hplain.keyToPath_eq (effectiveRoot isalnum s)
  have hpath' := hplain'.keyToPath_eq (effectiveRoot isalnum s)
  obtain ⟨u, hsave, hg, hnode⟩ :=
    save_newStore isalnum P s (P.ofIndex .empty) hpath hplain.keyName_ne_nil
  have hops : ∀ op ∈ ([.save key (P.ofIndex .empty), .delete key'] : List (StorageOp V F)),
      MapOp K op :=
    List.forall_mem_cons.mpr ⟨hk, List.forall_mem_cons.mpr ⟨hk', List.forall_mem_nil _⟩⟩
  have hrun := (hmap _ hops).2.1
  rw [hsave, final] at hrun
  have hdir : ∀ n : Text, keyDir key' ++ [n] <+: keyDir key →
      u.node? (effectiveRoot isalnum s ++ keyDir key' ++ [n]) = some .dir := by
    intro n hpre
    have hpre' : effectiveRoot isalnum s ++ keyDir key' ++ [n] <+:
        effectiveRoot isalnum s ++ keyDir key := by
      rw [sibling_append, List.prefix_append_right_inj]
      exact hpre
    have hne : effectiveRoot isalnum s ++ keyDir key' ++ [n] ≠
        dataFile (effectiveRoot isalnum s ++ keyDir key) (keyName key) := by
      intro heq
      rw [heq] at hpre'
      exact sibling_not_above _ hpre'
    rw [hnode _ (List.append_ne_nil_of_right_ne_nil _ (List.cons_ne_nil _ _)), if_neg hne,
      if_pos hpre']
  have hraises := delete_raises P { (newStore : JsonStore V F) with files := u } hpath'
    hplain'.keyName_ne_nil hg
  exact ⟨fun h => hraises (.inl (hdir _ h)) hrun, fun h => hraises (.inr (hdir _ h)) hrun⟩

end Converse

/-- Over accepted keys the store acts as a map exactly when the keys are clear. -/
theorem actsAsMap_iff_clearKeys (isalnum : Char → Bool) (P : Platform V F S) (s : Scope)
    (K : Set Text) (hacc : ∀ k ∈ K, AcceptedKey k) :
    ActsAsMap isalnum P s K ↔ ClearKeys K := by
  constructor
  · intro hmap
    exact ⟨fun k hk => (reported_of_actsAsMap hmap hk).1,
      fun k hk => (reported_of_actsAsMap hmap hk).2,
      fun k hk k' hk' => clear_of_actsAsMap hmap hk hk'⟩
  · intro hK ops hops
    exact (represents_newStore K).faithful hK hacc hops

section Samples

/-- `patterns/a.b` and `patterns/a.c` -/
def dottedKey : Text := patternsPrefix ++ ['a', '.', 'b']
def otherDottedKey : Text := patternsPrefix ++ ['a', '.', 'c']

/-- Both keys are stored as `patterns/a.json`, which is listed as neither. -/
theorem dotted_keys_collide :
    AcceptedKey dottedKey ∧ AcceptedKey otherDottedKey ∧
      responses (perform Char.isAlphanum lengthPlatform) (fun _ => true) newStore
        [(defaultScope, .save dottedKey 1), (defaultScope, .save otherDottedKey 2),
          (defaultScope, .load dottedKey), (defaultScope, .listKeys [])] =
        [.ok .done, .ok .done, .ok (.value (some 2)),
          .ok (.keys [patternsPrefix ++ ['a']])] ∧
      ¬ ActsAsMap Char.isAlphanum lengthPlatform defaultScope {dottedKey, otherDottedKey} := by
  refine ⟨by decide, by decide, by decide, ?_⟩
  intro hmap
  have hplain := (reported_of_actsAsMap hmap (Set.mem_insert _ _)).1
  exact absurd hplain.noSuffix (by decide)

/-- Three patterns, one of them below a directory of its own. -/
def learnedKeys : List Text :=
  [patternsPrefix ++ ['a', 'b'], patternsPrefix ++ ['a', 'c'], patternsPrefix ++ ['d', '/', 'e']]

theorem learned_key_actsAsMap :
    ActsAsMap Char.isAlphanum lengthPlatform defaultScope {k | k ∈ learnedKeys} := by
  have haccepted : ∀ k ∈ learnedKeys, AcceptedKey k := by decide
  apply (actsAsMap_iff_clearKeys Char.isAlphanum lengthPlatform defaultScope _ haccepted).mpr
  have hback : ∀ k ∈ learnedKeys, '\\' ∉ k := by decide
  have hkept : ∀ k ∈ learnedKeys, ∀ segment ∈ k.splitOn '/', Kept segment := by decide
  have hsuffix : ∀ k ∈ learnedKeys, suffix (keyName k) = [] := by decide
  have hunderscore : ∀ k ∈ learnedKeys, (keyName k).head? ≠ some '_' := by decide
  have hinits : ∀ k ∈ learnedKeys, ∀ q ∈ (keyDir k).inits, q ≠ [] → listed q = false := by
    decide
  have hclear : ∀ k ∈ learnedKeys, ∀ k' ∈ learnedKeys,
      ¬ tmpFile (keyDir k') (keyName k') <+: keyDir k ∧
        ¬ bakFile (keyDir k') (keyName k') <+: keyDir k := by decide
  refine ⟨?_, ?_, hclear⟩
  · intro k hk
    exact ⟨hback k hk, hkept k hk, hsuffix k hk, hunderscore k hk⟩
  · intro k hk d hd hpre
    exact hinits k hk d ((List.mem_inits d _).mpr hpre) hd

end Samples

end Engramia.Storage
