import Engramia.Library.FileNames
import Engramia.Library.Run
import Engramia.Storage.Isolation
import Engramia.Storage.Keys

/-!
The stores that the operations reach. Every directory in them bears a segment of a scope or of
a key, every file is a document, a temporary file or a backup, and the index of the default
scope is never a directory: the documents are saved under the directories of a few kinds.
-/
namespace Engramia.Storage
open Engramia.Library

variable {V F S : Type} {isalnum : Char → Bool} {P : Platform V F S} {s : Scope}

def embeddingsName : Text := ['_', 'e', 'm', 'b', 'e', 'd', 'd', 'i', 'n', 'g', 's']

/-- The first segments of the keys that documents are saved under. -/
def storeKinds : List Text :=
  ["patterns".toList, "evals".toList, "metrics".toList, "feedback".toList, "skills".toList,
    "analytics".toList, "metadata".toList]

def StoreKey (key : Text) : Prop :=
  ∃ kind ∈ storeKinds, ∃ rest, key = kind ++ '/' :: rest

/-- A save is of a document of one of the kinds. -/
def StoreOp : StorageOp V F → Prop
  | .save key _ => StoreKey key
  | _ => True

/-- The store after a run of operations on a new one. -/
def storeAfter (isalnum : Char → Bool) (P : Platform V F S)
    (ops : List (Scope × StorageOp V F)) : JsonStore V F :=
  exec (fun st r => final (perform isalnum P r st)) newStore ops

/-- The files that an embedding index is written through. -/
def indexFiles (root : Path) : List Path :=
  [dataFile root embeddingsName, tmpFile root embeddingsName, bakFile root embeddingsName]

def fileSuffixes : List Text := [jsonSuffix, tmpSuffix, bakSuffix]

/-- A name that a segment of a key or of a scope gives a directory. -/
def DirName (name : Text) : Prop := CleanName name ∧ Kept name

def DirPath (path : Path) : Prop := DirName (path.getLastD []) ∧ path ∉ indexFiles []

def FilePath (path : Path) : Prop :=
  ∃ dir x ext, x ≠ [] ∧ CleanName x ∧ ext ∈ fileSuffixes ∧ path = dir ++ [x ++ ext]

/-- The index of the default scope is loaded when a store is opened. -/
structure Tidy (st : JsonStore V F) : Prop where
  files : st.files.Lawful DirPath FilePath
  loaded : st.scopeEmbeddings defaultScope ≠ none

/-- No letter or digit separates names or suffixes. -/
def Separated (isalnum : Char → Bool) : Prop :=
  ∀ c ∈ ['.', '/', '\\'], isalnum c = false

section Names

theorem not_mem_sanitizeSegment (hsep : Separated isalnum) {c : Char}
    (hc : c ∈ ['.', '/', '\\']) (segment : Text) : c ∉ sanitizeSegment isalnum segment := by
  intro hmem
  have hplain : c ≠ '-' ∧ c ≠ '_' := by
    simp only [List.mem_cons, List.not_mem_nil, or_false] at hc
    obtain rfl | rfl | rfl := hc <;> decide
  rw [sanitizeSegment] at hmem
  by_cases hclean : (segment.map fun c => if isalnum c || c = '-' || c = '_' then c else '_') = []
  · rw [hclean] at hmem
    have hdefault : ∀ c ∈ ['.', '/', '\\'], c ∉ defaultName := by simp [defaultName]
    exact hdefault c hc hmem
  · simp only [if_neg hclean] at hmem
    obtain ⟨d, _, hd⟩ := List.mem_map.mp hmem
    by_cases hkeep : (isalnum d || d = '-' || d = '_') = true
    · rw [if_pos hkeep] at hd
      subst hd
      simp [hsep d hc, hplain.1, hplain.2] at hkeep
    · rw [if_neg hkeep] at hd
      exact hplain.2 hd.symm

theorem sanitizeSegment_ne_nil (segment : Text) : sanitizeSegment isalnum segment ≠ [] := by
  rw [sanitizeSegment]
  by_cases hclean : (segment.map fun c => if isalnum c || c = '-' || c = '_' then c else '_') = []
  · simp only [if_pos hclean]
    decide
  · simp only [if_neg hclean]
    exact hclean

/-- The names of a scope's directory have no dot. -/
theorem dotless_of_mem_root (hsep : Separated isalnum) {n : Text}
    (hn : n ∈ effectiveRoot isalnum s) : '.' ∉ n := by
  rw [effectiveRoot] at hn
  split at hn
  · cases hn
  · simp only [List.mem_cons, List.not_mem_nil, or_false] at hn
    cases hn with
    | inl h => exact h ▸ not_mem_sanitizeSegment hsep (by decide) _
    | inr h => exact h ▸ not_mem_sanitizeSegment hsep (by decide) _

theorem dirName_of_mem_root (hsep : Separated isalnum) {n : Text}
    (hn : n ∈ effectiveRoot isalnum s) : DirName n := by
  have hdot := dotless_of_mem_root hsep hn
  have hsegment : ∃ segment, n = sanitizeSegment isalnum segment := by
    rw [effectiveRoot] at hn
    split at hn
    · cases hn
    · simp only [List.mem_cons, List.not_mem_nil, or_false] at hn
      cases hn with
      | inl h => exact ⟨_, h⟩
      | inr h => exact ⟨_, h⟩
  obtain ⟨segment, rfl⟩ := hsegment
  have hne : sanitizeSegment isalnum segment ≠ [] := sanitizeSegment_ne_nil segment
  refine ⟨⟨not_mem_sanitizeSegment hsep (by decide) _,
    not_mem_sanitizeSegment hsep (by decide) _⟩, hne, ?_⟩
  rw [List.all_eq_false]
  cases hname : sanitizeSegment isalnum segment with
  | nil => exact absurd hname hne
  | cons c rest =>
      refine ⟨c, List.mem_cons_self, ?_⟩
      rw [decide_eq_true_eq]
      intro hc
      rw [hname, hc] at hdot
      exact hdot List.mem_cons_self

theorem dirName_of_mem_keyParts {key n : Text} (hn : n ∈ keyParts key) : DirName n := by
  have hkept := (List.mem_filter.mp hn).2
  simp only [Bool.and_eq_true, decide_eq_true_eq, Bool.not_eq_true'] at hkept
  exact ⟨cleanName_of_mem_keyParts hn, hkept⟩

theorem keyParts_storeKey {key : Text} (h : StoreKey key) :
    ∃ kind ∈ storeKinds, ∃ rest, keyParts key = kind :: rest := by
  obtain ⟨kind, hkind, rest, rfl⟩ := h
  have hplain : ∀ kind ∈ storeKinds, '/' ∉ kind ∧ '\\' ∉ kind ∧ Kept kind := by decide
  obtain ⟨hslash, hback, hkept⟩ := hplain kind hkind
  refine ⟨kind, hkind, keyParts rest, ?_⟩
  have hslashes : slashes (kind ++ '/' :: rest) = kind ++ '/' :: slashes rest := by
    have happend : slashes (kind ++ '/' :: rest) = slashes kind ++ '/' :: slashes rest := by
      simp [slashes]
    rw [happend, slashes_of_not_mem hback]
  rw [keyParts, hslashes, List.splitOn_append_cons_self_of_not_mem hslash, List.filter_cons_of_pos]
  · rfl
  · simp [hkept.1, hkept.2]

/-- The directories of a document of one of the kinds. -/
theorem dirPath_of_key (hsep : Separated isalnum) {key : Text} (h : StoreKey key) {q : Path}
    (hq : q <+: effectiveRoot isalnum s ++ (keyParts key).dropLast) (hne : q ≠ []) :
    DirPath q := by
  have hmem : ∀ n ∈ q, n ∈ effectiveRoot isalnum s ∨ n ∈ keyParts key := by
    intro n hn
    cases List.mem_append.mp (hq.subset hn) with
    | inl h => exact .inl h
    | inr h => exact .inr (List.mem_of_mem_dropLast h)
  have hlast := last_mem hne
  constructor
  · cases hmem _ hlast with
    | inl h => exact dirName_of_mem_root hsep h
    | inr h => exact dirName_of_mem_keyParts h
  · intro hindex
    obtain ⟨kind, hkind, rest, hparts⟩ := keyParts_storeKey h
    have hname : ∀ p ∈ indexFiles [],
        p.length = 1 ∧ '.' ∈ p.getLastD [] ∧ p.getLastD [] ∉ storeKinds := by decide
    obtain ⟨hlen, hdot, hkinds⟩ := hname q hindex
    obtain ⟨n, rfl⟩ := List.length_eq_one_iff.mp hlen
    cases hroot : effectiveRoot isalnum s with
    | nil =>
        rw [hroot, hparts, List.nil_append] at hq
        cases rest with
        | nil => exact hne (List.prefix_nil.mp hq)
        | cons m rest =>
            rw [List.dropLast_cons_cons, List.cons_prefix_cons] at hq
            exact hkinds (hq.1 ▸ hkind)
    | cons m root =>
        rw [hroot, List.cons_append, List.cons_prefix_cons] at hq
        have hm : m ∈ effectiveRoot isalnum s := hroot ▸ List.mem_cons_self
        exact dotless_of_mem_root hsep hm (hq.1 ▸ hdot)

theorem dirPath_of_root (hsep : Separated isalnum) {q : Path}
    (hq : q <+: effectiveRoot isalnum s) (hne : q ≠ []) : DirPath q := by
  have hkey : StoreKey ("patterns".toList ++ ['/']) := ⟨"patterns".toList, by decide, [], rfl⟩
  exact dirPath_of_key hsep hkey (hq.trans (List.prefix_append _ _)) hne

end Names

section Renames
variable {dir q : Path} {x e e' : Text}

theorem stem_fileSuffix (hx : x ≠ []) (he : e ∈ fileSuffixes) : stem (x ++ e) = x := by
  simp only [fileSuffixes, List.mem_cons, List.not_mem_nil, or_false] at he
  obtain rfl | rfl | rfl := he
  · exact stem_append hx (by decide) (by decide)
  · exact stem_append hx (by decide) (by decide)
  · exact stem_append hx (by decide) (by decide)

/-- What may stand under one of the names of a document may stand under the others. -/
theorem DirPath.renamed (hx : x ≠ []) (hclean : CleanName x) (he : e ∈ fileSuffixes)
    (he' : e' ∈ fileSuffixes) (h : DirPath (dir ++ [x ++ e] ++ q)) :
    DirPath (dir ++ [x ++ e'] ++ q) := by
  have hsuffixes : ∀ e ∈ fileSuffixes, ('/' ∉ e ∧ '\\' ∉ e) ∧ e.all (· = '.') = false := by
    decide
  cases q with
  | nil =>
      rw [List.append_nil] at h ⊢
      refine ⟨⟨?_, ?_⟩, ?_⟩
      · rw [List.getLastD_concat]
        have hclean' := (hsuffixes e' he').1
        exact ⟨fun hmem => (List.mem_append.mp hmem).elim hclean.1 hclean'.1,
          fun hmem => (List.mem_append.mp hmem).elim hclean.2 hclean'.2⟩
      · rw [List.getLastD_concat]
        refine ⟨List.append_ne_nil_of_left_ne_nil hx _, ?_⟩
        rw [List.all_append, (hsuffixes e' he').2, Bool.and_false]
      · intro hindex
        have hname : ∀ p ∈ indexFiles [], ∃ e ∈ fileSuffixes, p = [] ++ [embeddingsName ++ e] := by
          intro p hp
          simp only [indexFiles, List.mem_cons, List.not_mem_nil, or_false] at hp
          obtain rfl | rfl | rfl := hp
          · exact ⟨jsonSuffix, by decide, rfl⟩
          · exact ⟨tmpSuffix, by decide, rfl⟩
          · exact ⟨bakSuffix, by decide, rfl⟩
        obtain ⟨e₀, he₀, heq⟩ := hname _ hindex
        obtain ⟨rfl, hxe⟩ := sibling_inj heq
        have hstem : x = embeddingsName := by
          rw [← stem_fileSuffix hx he', hxe, stem_fileSuffix (by decide) he₀]
        subst hstem
        apply h.2
        have hall : ∀ e ∈ fileSuffixes, [] ++ [embeddingsName ++ e] ∈ indexFiles [] := by decide
        exact hall e he
  | cons n q =>
      have hlast : (dir ++ [x ++ e'] ++ n :: q).getLastD [] =
          (dir ++ [x ++ e] ++ n :: q).getLastD [] := by
        rw [List.getLastD_eq_getLast?, List.getLastD_eq_getLast?,
          List.getLast?_append_of_ne_nil _ (List.cons_ne_nil n q),
          List.getLast?_append_of_ne_nil _ (List.cons_ne_nil n q)]
      refine ⟨hlast ▸ h.1, ?_⟩
      intro hindex
      have hshort : ∀ p ∈ indexFiles [], p.length = 1 := by decide
      have hlen := hshort _ hindex
      simp only [List.length_append, List.length_cons, List.length_nil] at hlen
      omega

theorem FilePath.renamed (hx : x ≠ []) (hclean : CleanName x) (he' : e' ∈ fileSuffixes)
    (h : FilePath (dir ++ [x ++ e] ++ q)) : FilePath (dir ++ [x ++ e'] ++ q) := by
  cases q with
  | nil => exact ⟨dir, x, e', hx, hclean, he', List.append_nil _⟩
  | cons n q =>
      obtain ⟨dir₀, x₀, e₀, hx₀, hclean₀, he₀, heq⟩ := h
      have hsplit : n :: q = (n :: q).dropLast ++ [x₀ ++ e₀] := by
        have hlast := congrArg List.getLast? heq
        rw [List.getLast?_append_of_ne_nil _ (List.cons_ne_nil n q), List.getLast?_concat] at hlast
        exact (List.dropLast_append_getLast? _ hlast).symm
      refine ⟨dir ++ [x ++ e'] ++ (n :: q).dropLast, x₀, e₀, hx₀, hclean₀, he₀, ?_⟩
      conv => lhs; rw [hsplit]
      rw [List.append_assoc (dir ++ [x ++ e'])]

end Renames

section Invariant

theorem maintains_change {f : Files V → Except FileError (Files V)}
    (hf : ∀ t u : Files V, t.Lawful DirPath FilePath → f t = .ok u →
      u.Lawful DirPath FilePath) :
    Maintains Tidy (change f : StoreM V F Unit) := by
  intro st h
  cases hr : f st.files with
  | ok u =>
      rw [change_ok hr]
      exact ⟨hf _ _ h.files hr, h.loaded⟩
  | error e =>
      rw [change_error hr]
      exact h

theorem maintains_inspect {α : Type} (f : Files V → α) :
    Maintains Tidy (inspect f : StoreM V F α) :=
  fun _ h => h

theorem maintains_openRead (path : Path) : Maintains Tidy (openRead path : StoreM V F _) := by
  intro st h
  rw [openRead]
  cases st.files.read path with
  | ok doc => exact h
  | error e => exact h

theorem maintains_cached : Maintains Tidy (cached s : StoreM V F _) :=
  fun _ h => h

theorem maintains_cache (index : Index F) :
    Maintains Tidy (cache s index : StoreM V F Unit) := by
  intro st h
  refine ⟨h.files, ?_⟩
  by_cases hs : defaultScope = s
  · simp [cache, final, hs]
  · simpa [cache, final, hs] using h.loaded

theorem maintains_atomicWrite {dir : Path} {x : Text} (hx : x ≠ []) (hclean : CleanName x)
    (hdirs : ∀ q, q <+: dir → q ≠ [] → DirPath q) (data : V) :
    Maintains Tidy (atomicWrite (dataFile dir x) data : StoreM V F Unit) := by
  have hjson : jsonSuffix ∈ fileSuffixes := by decide
  have htmp : tmpSuffix ∈ fileSuffixes := by decide
  have hbak : bakSuffix ∈ fileSuffixes := by decide
  rw [atomicWrite, withSuffix_tmp hx, withSuffix_bak hx]
  apply Maintains.bind
  · apply maintains_change
    intro t u h hok
    apply h.mkdirs hok
    rw [dataFile, List.dropLast_concat]
    exact hdirs
  · intro _
    apply Maintains.bind
    · apply maintains_change
      intro t u h hok
      exact h.write hok ⟨dir, x, tmpSuffix, hx, hclean, htmp, rfl⟩
    · intro _
      apply Maintains.bind (maintains_inspect _)
      intro displaced
      have hmove : Maintains Tidy
          (change (·.replace (tmpFile dir x) (dataFile dir x)) : StoreM V F Unit) := by
        apply maintains_change
        intro t u h hok
        exact h.replace hok (fun q => DirPath.renamed hx hclean htmp hjson)
          fun q => FilePath.renamed hx hclean hjson
      apply Maintains.ite
      · apply Maintains.bind
        · apply maintains_change
          intro t u h hok
          exact h.replace hok (fun q => DirPath.renamed hx hclean hjson hbak)
            fun q => FilePath.renamed hx hclean hbak
        · intro _
          exact hmove
      · exact hmove

theorem maintains_unlinkIfPresent (path : Path) :
    Maintains Tidy (unlinkIfPresent path : StoreM V F Unit) := by
  rw [unlinkIfPresent]
  apply Maintains.bind (maintains_inspect _)
  intro _
  exact Maintains.ite (maintains_change fun t u h hok => h.unlink hok) (Maintains.pure _)

theorem maintains_onPath {α : Type} {key : Text} {f : Path → StoreM V F α}
    (hf : ∀ path, keyToPath (effectiveRoot isalnum s) key = some path → Maintains Tidy (f path)) :
    Maintains Tidy (pathOfKey isalnum s key >>= f) := by
  rw [pathOfKey]
  cases hpath : keyToPath (effectiveRoot isalnum s) key with
  | none => exact Maintains.throw_bind _
  | some path => exact hf path hpath

theorem maintains_getEmbeddings :
    Maintains Tidy (getEmbeddings isalnum P s : StoreM V F (Index F)) := by
  have hload : Maintains Tidy (loadEmbeddings isalnum P s : StoreM V F _) := by
    rw [loadEmbeddings]
    apply Maintains.bind (maintains_inspect _)
    intro _
    apply Maintains.ite
    · apply Maintains.bind (maintains_openRead _)
      intro doc
      cases doc with
      | json v => exact Maintains.pure _
      | corrupt => exact Maintains.pure _
    · exact Maintains.pure _
  rw [getEmbeddings]
  apply Maintains.bind maintains_cached
  intro index
  cases index with
  | some index => exact Maintains.pure _
  | none =>
      apply Maintains.bind hload
      intro index
      exact Maintains.bind (maintains_cache index) fun _ => Maintains.pure _

theorem maintains_saveEmbeddingsIndex (hsep : Separated isalnum) (index : Index F) :
    Maintains Tidy (saveEmbeddingsIndex isalnum P s index) := by
  rw [saveEmbeddingsIndex]
  apply Maintains.bind (maintains_cache index)
  intro _
  exact maintains_atomicWrite (x := embeddingsName) (by decide) ⟨by decide, by decide⟩
    (fun q hq hne => dirPath_of_root hsep hq hne) _

theorem maintains_save (hsep : Separated isalnum) {key : Text} (hkey : StoreKey key) (data : V) :
    Maintains Tidy (save isalnum s key data : StoreM V F Unit) := by
  rw [save]
  apply maintains_onPath
  intro path hpath
  obtain ⟨x, hx, rfl, hstem⟩ := keyToPath_eq_some hpath
  have hlast : (keyParts key).getLastD [] ∈ keyParts key := by
    obtain ⟨kind, _, rest, hparts⟩ := keyParts_storeKey hkey
    apply last_mem
    rw [hparts]
    exact List.cons_ne_nil _ _
  have hclean : CleanName x := hstem ▸ (cleanName_of_mem_keyParts hlast).stem
  exact maintains_atomicWrite hx hclean (fun q hq hne => dirPath_of_key hsep hkey hq hne) data

theorem maintains_delete (hsep : Separated isalnum) (key : Text) :
    Maintains Tidy (delete isalnum P s key) := by
  rw [delete]
  apply maintains_onPath
  intro path _
  apply Maintains.bind (maintains_unlinkIfPresent _)
  intro _
  apply Maintains.bind (maintains_unlinkIfPresent _)
  intro _
  apply Maintains.bind (maintains_unlinkIfPresent _)
  intro _
  apply Maintains.bind maintains_getEmbeddings
  intro embeddings
  exact Maintains.ite (maintains_saveEmbeddingsIndex hsep _) (Maintains.pure _)

theorem maintains_listKeys (hsep : Separated isalnum) (keyPrefix : Text) :
    Maintains Tidy (listKeys isalnum s keyPrefix : StoreM V F (List Text)) := by
  rw [listKeys]
  apply Maintains.bind
  · exact maintains_change fun t u h hok =>
      h.mkdirs hok fun q hq hne => dirPath_of_root hsep hq hne
  · intro _
    exact maintains_inspect _

theorem maintains_load (key : Text) :
    Maintains Tidy (load isalnum s key : StoreM V F (Option V)) := by
  rw [load]
  apply maintains_onPath
  intro path _
  apply Maintains.bind (maintains_inspect _)
  intro _
  apply Maintains.ite
  · apply Maintains.bind (maintains_openRead _)
    intro doc
    cases doc with
    | json v => exact Maintains.pure _
    | corrupt => exact Maintains.pure _
  · exact Maintains.pure _

theorem maintains_saveEmbedding (hsep : Separated isalnum) (key : Text) (embedding : List F) :
    Maintains Tidy (saveEmbedding isalnum P s key embedding) := by
  rw [saveEmbedding]
  apply Maintains.bind maintains_getEmbeddings
  intro embeddings
  apply Maintains.ite
  · exact Maintains.throw_bind _
  · exact maintains_saveEmbeddingsIndex hsep _

theorem maintains_searchSimilar (embedding : List F) (limit : Nat) (keyPrefix : Text) :
    Maintains Tidy (searchSimilar isalnum P s embedding limit keyPrefix) := by
  rw [searchSimilar]
  apply Maintains.bind maintains_getEmbeddings
  intro embeddings
  apply Maintains.ite
  · exact Maintains.throw_bind _
  · exact Maintains.ite (Maintains.pure _) (Maintains.pure _)

/-- Each operation keeps a store tidy, also where it raises. -/
theorem maintains_perform (hsep : Separated isalnum) {op : StorageOp V F} (hop : StoreOp op) :
    Maintains Tidy (perform isalnum P (s, op)) := by
  cases op with
  | load key => exact Maintains.bind (maintains_load key) fun _ => Maintains.pure _
  | save key data => exact Maintains.bind (maintains_save hsep hop data) fun _ => Maintains.pure _
  | listKeys keyPrefix =>
      exact Maintains.bind (maintains_listKeys hsep keyPrefix) fun _ => Maintains.pure _
  | delete key => exact Maintains.bind (maintains_delete hsep key) fun _ => Maintains.pure _
  | saveEmbedding key embedding =>
      exact Maintains.bind (maintains_saveEmbedding hsep key embedding) fun _ => Maintains.pure _
  | searchSimilar embedding limit keyPrefix =>
      exact Maintains.bind (maintains_searchSimilar embedding limit keyPrefix)
        fun _ => Maintains.pure _

end Invariant

theorem tidy_storeAfter (hsep : Separated isalnum) {ops : List (Scope × StorageOp V F)}
    (hops : ∀ r ∈ ops, StoreOp r.2) : Tidy (storeAfter isalnum P ops) := by
  have hrun : ∀ st : JsonStore V F, Tidy st →
      Tidy (exec (fun st r => final (perform isalnum P r st)) st ops) := by
    induction ops with
    | nil =>
        intro st h
        exact h
    | cons r ops ih =>
        intro st h
        rw [List.forall_mem_cons] at hops
        exact ih hops.2 _ (maintains_perform hsep hops.1 st h)
  exact hrun newStore ⟨FileTree.lawful_empty, Option.some_ne_none _⟩

end Engramia.Storage
