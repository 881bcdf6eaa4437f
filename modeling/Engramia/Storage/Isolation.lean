import Engramia.Storage.Writes
import Engramia.Library.FileView

/-!
Which scopes of the JSON store are isolated from each other. An operation works
strictly below the root of its scope and on the embedding index of its scope, so
two scopes whose roots are apart do not see each other. The roots of two scopes
other than the default one are apart unless they are equal; the default root
contains every other one.
-/
namespace Engramia.Storage
open Engramia.Library

variable {V F S : Type} {isalnum : Char → Bool} {P : Platform V F S} {s s' : Scope}

/-- What one scope can see of the store. -/
def scopeView (isalnum : Char → Bool) (s : Scope) (st : JsonStore V F) :
    (Files V × Bool) × Option (Index F) :=
  (FileTree.view (effectiveRoot isalnum s) st.files, st.scopeEmbeddings s)

/-- Strictly below a directory. -/
def Inside (root path : Path) : Prop :=
  root <+: path ∧ path ≠ root

section Paths
variable {root path : Path}

theorem inside_append {q : Path} (hq : q ≠ []) : Inside root (root ++ q) :=
  ⟨List.prefix_append _ _, fun h => hq (List.append_right_eq_self.mp h)⟩

theorem withSuffix_append {q : Path} (hq : q ≠ []) (ext : Text) :
    withSuffix (root ++ q) ext = root ++ withSuffix q ext := by
  rw [withSuffix, withSuffix, List.dropLast_append_of_ne_nil hq, List.append_assoc]
  congr 3
  rw [List.getLastD_eq_getLast?, List.getLastD_eq_getLast?, List.getLast?_append_of_ne_nil _ hq]

theorem withSuffix_ne_nil (path : Path) (ext : Text) : withSuffix path ext ≠ [] :=
  List.append_ne_nil_of_right_ne_nil _ (List.cons_ne_nil _ _)

theorem inside_withSuffix (h : Inside root path) (ext : Text) :
    Inside root (withSuffix path ext) := by
  obtain ⟨⟨q, rfl⟩, hne⟩ := h
  have hq : q ≠ [] := fun hq => hne (by rw [hq, List.append_nil])
  rw [withSuffix_append hq]
  exact inside_append (withSuffix_ne_nil q ext)

theorem prefix_dropLast (h : Inside root path) : root <+: path.dropLast :=
  FileTree.prefix_dropLast h.1 h.2

theorem inside_keyToPath {key : Text} (h : keyToPath root key = some path) :
    Inside root path := by
  rw [keyToPath] at h
  by_cases hparts : keyParts key = []
  · rw [if_pos hparts] at h
    cases h
  · rw [if_neg hparts] at h
    cases h
    exact inside_withSuffix (inside_append hparts) _

theorem inside_embeddingsPath : Inside (effectiveRoot isalnum s) (embeddingsPath isalnum s) :=
  inside_append (List.cons_ne_nil _ _)

end Paths

section Confinement

theorem confined_change {f : Files V → Except FileError (Files V)}
    (hf : ∀ t t', FileTree.view (effectiveRoot isalnum s) t =
        FileTree.view (effectiveRoot isalnum s) t' →
      (f t).map (FileTree.view (effectiveRoot isalnum s)) =
        (f t').map (FileTree.view (effectiveRoot isalnum s))) :
    Confined (scopeView isalnum s) (change f : StoreM V F Unit) := by
  intro st st' h
  have hview : FileTree.view (effectiveRoot isalnum s) st.files =
      FileTree.view (effectiveRoot isalnum s) st'.files := congrArg Prod.fst h
  have hcache : st.scopeEmbeddings s = st'.scopeEmbeddings s := congrArg Prod.snd h
  have hfiles := hf st.files st'.files hview
  cases hr : f st.files with
  | ok t =>
      cases hr' : f st'.files with
      | ok t' =>
          rw [hr, hr'] at hfiles
          simp only [change, hr, hr']
          exact ⟨rfl, Prod.ext (Except.ok.inj hfiles) hcache⟩
      | error e => rw [hr, hr'] at hfiles; cases hfiles
  | error e =>
      cases hr' : f st'.files with
      | ok t' => rw [hr, hr'] at hfiles; cases hfiles
      | error e' =>
          rw [hr, hr'] at hfiles
          simp only [change, hr, hr']
          exact ⟨by rw [Except.error.inj hfiles]; rfl, h⟩

theorem confined_inspect {α : Type} {f : Files V → α}
    (hf : ∀ t t', FileTree.view (effectiveRoot isalnum s) t =
        FileTree.view (effectiveRoot isalnum s) t' → f t = f t') :
    Confined (scopeView isalnum s) (inspect f : StoreM V F α) :=
  fun st st' h => ⟨congrArg Except.ok (hf st.files st'.files (congrArg Prod.fst h)), h⟩

theorem confined_present {path : Path} (hp : Inside (effectiveRoot isalnum s) path) :
    Confined (scopeView isalnum s) (inspect (·.present path) : StoreM V F Bool) :=
  confined_inspect fun t t' h => by
    rw [FileTree.present, FileTree.present, FileTree.node?_of_view h hp.1]

theorem confined_openRead {path : Path} (hp : Inside (effectiveRoot isalnum s) path) :
    Confined (scopeView isalnum s) (openRead path : StoreM V F (Doc V)) := by
  intro st st' h
  have hread : st.files.read path = st'.files.read path :=
    FileTree.read_of_view (congrArg Prod.fst h) hp.1
  rw [openRead, openRead, hread]
  cases st'.files.read path with
  | ok doc => exact ⟨rfl, h⟩
  | error e => exact ⟨rfl, h⟩

theorem confined_cached : Confined (scopeView isalnum s) (cached s : StoreM V F _) :=
  fun _ _ h => ⟨congrArg Except.ok (congrArg Prod.snd h), h⟩

theorem confined_cache (index : Index F) :
    Confined (scopeView isalnum s) (cache s index : StoreM V F Unit) := by
  intro st st' h
  have hview : FileTree.view (effectiveRoot isalnum s) st.files =
      FileTree.view (effectiveRoot isalnum s) st'.files := congrArg Prod.fst h
  refine ⟨rfl, Prod.ext hview ?_⟩
  show (if s = s then some index else st.scopeEmbeddings s) =
    if s = s then some index else st'.scopeEmbeddings s
  rw [if_pos rfl, if_pos rfl]

theorem confined_atomicWrite {path : Path} (hp : Inside (effectiveRoot isalnum s) path)
    (data : V) : Confined (scopeView isalnum s) (atomicWrite path data : StoreM V F Unit) := by
  have htmp := inside_withSuffix hp tmpSuffix
  have hbak := inside_withSuffix hp bakSuffix
  have hpublish : Confined (scopeView isalnum s)
      (change (·.replace (withSuffix path tmpSuffix) path) : StoreM V F Unit) :=
    confined_change fun t t' h => FileTree.replace_of_view h htmp.1 htmp.2 hp.1 hp.2
  rw [atomicWrite]
  apply Confined.bind
  · exact confined_change fun t t' h => FileTree.mkdirs_of_view h (prefix_dropLast hp)
  · intro _
    apply Confined.bind
    · exact confined_change fun t t' h => FileTree.write_of_view h htmp.1 htmp.2
    · intro _
      apply Confined.bind (confined_present hp)
      intro _
      apply Confined.ite
      · apply Confined.bind
        · exact confined_change fun t t' h =>
            FileTree.replace_of_view h hp.1 hp.2 hbak.1 hbak.2
        · exact fun _ => hpublish
      · exact hpublish

theorem confined_unlinkIfPresent {path : Path} (hp : Inside (effectiveRoot isalnum s) path) :
    Confined (scopeView isalnum s) (unlinkIfPresent path : StoreM V F Unit) := by
  rw [unlinkIfPresent]
  apply Confined.bind (confined_present hp)
  intro _
  apply Confined.ite
  · exact confined_change fun t t' h => FileTree.unlink_of_view h hp.1 hp.2
  · exact Confined.pure _

/-- What runs on the path of a key need be confined only on paths in the root. -/
theorem confined_onPath {α : Type} {key : Text} {f : Path → StoreM V F α}
    (hf : ∀ path, Inside (effectiveRoot isalnum s) path →
      Confined (scopeView isalnum s) (f path)) :
    Confined (scopeView isalnum s) (pathOfKey isalnum s key >>= f) := by
  rw [pathOfKey]
  cases hpath : keyToPath (effectiveRoot isalnum s) key with
  | none => exact Confined.throw_bind _
  | some path => exact hf path (inside_keyToPath hpath)

theorem confined_getEmbeddings :
    Confined (scopeView isalnum s) (getEmbeddings isalnum P s : StoreM V F (Index F)) := by
  have hload : Confined (scopeView isalnum s) (loadEmbeddings isalnum P s : StoreM V F _) := by
    rw [loadEmbeddings]
    apply Confined.bind (confined_present inside_embeddingsPath)
    intro _
    apply Confined.ite
    · apply Confined.bind (confined_openRead inside_embeddingsPath)
      intro doc
      cases doc with
      | json v => exact Confined.pure _
      | corrupt => exact Confined.pure _
    · exact Confined.pure _
  rw [getEmbeddings]
  apply Confined.bind confined_cached
  intro index
  cases index with
  | some index => exact Confined.pure _
  | none =>
      apply Confined.bind hload
      intro index
      exact Confined.bind (confined_cache index) fun _ => Confined.pure _

theorem confined_saveEmbeddingsIndex (index : Index F) :
    Confined (scopeView isalnum s) (saveEmbeddingsIndex isalnum P s index) := by
  rw [saveEmbeddingsIndex]
  exact Confined.bind (confined_cache index) fun _ =>
    confined_atomicWrite inside_embeddingsPath _

theorem confined_load (key : Text) :
    Confined (scopeView isalnum s) (load isalnum s key : StoreM V F (Option V)) := by
  rw [load]
  apply confined_onPath
  intro path hp
  apply Confined.bind (confined_present hp)
  intro _
  apply Confined.ite
  · apply Confined.bind (confined_openRead hp)
    intro doc
    cases doc with
    | json v => exact Confined.pure _
    | corrupt => exact Confined.pure _
  · exact Confined.pure _

theorem confined_save (key : Text) (data : V) :
    Confined (scopeView isalnum s) (save isalnum s key data : StoreM V F Unit) := by
  rw [save]
  exact confined_onPath fun path hp => confined_atomicWrite hp data

theorem confined_listKeys (keyPrefix : Text) :
    Confined (scopeView isalnum s) (listKeys isalnum s keyPrefix : StoreM V F (List Text)) := by
  rw [listKeys]
  apply Confined.bind
  · exact confined_change fun t t' h => FileTree.mkdirs_of_view h (List.prefix_refl _)
  · intro _
    apply confined_inspect
    intro t t' h
    rw [keysBelow, keysBelow, FileTree.below_of_view h (List.prefix_refl _)]

theorem confined_delete (key : Text) :
    Confined (scopeView isalnum s) (delete isalnum P s key) := by
  rw [delete]
  apply confined_onPath
  intro path hp
  apply Confined.bind (confined_unlinkIfPresent hp)
  intro _
  apply Confined.bind (confined_unlinkIfPresent (inside_withSuffix hp _))
  intro _
  apply Confined.bind (confined_unlinkIfPresent (inside_withSuffix hp _))
  intro _
  apply Confined.bind confined_getEmbeddings
  intro embeddings
  exact Confined.ite (confined_saveEmbeddingsIndex _) (Confined.pure _)

theorem confined_saveEmbedding (key : Text) (embedding : List F) :
    Confined (scopeView isalnum s) (saveEmbedding isalnum P s key embedding) := by
  rw [saveEmbedding]
  apply Confined.bind confined_getEmbeddings
  intro embeddings
  apply Confined.ite
  · exact Confined.throw_bind _
  · exact confined_saveEmbeddingsIndex _

theorem confined_searchSimilar (embedding : List F) (limit : Nat) (keyPrefix : Text) :
    Confined (scopeView isalnum s) (searchSimilar isalnum P s embedding limit keyPrefix) := by
  rw [searchSimilar]
  apply Confined.bind confined_getEmbeddings
  intro embeddings
  apply Confined.ite
  · exact Confined.throw_bind _
  · exact Confined.ite (Confined.pure _) (Confined.pure _)

theorem confined_perform (op : StorageOp V F) :
    Confined (scopeView isalnum s) (perform isalnum P (s, op)) := by
  cases op with
  | load key => exact Confined.bind (confined_load key) fun _ => Confined.pure _
  | save key data => exact Confined.bind (confined_save key data) fun _ => Confined.pure _
  | listKeys keyPrefix =>
      exact Confined.bind (confined_listKeys keyPrefix) fun _ => Confined.pure _
  | delete key => exact Confined.bind (confined_delete key) fun _ => Confined.pure _
  | saveEmbedding key embedding =>
      exact Confined.bind (confined_saveEmbedding key embedding) fun _ => Confined.pure _
  | searchSimilar embedding limit keyPrefix =>
      exact Confined.bind (confined_searchSimilar embedding limit keyPrefix)
        fun _ => Confined.pure _

end Confinement

section Unseen
variable (hroots : FileTree.Apart (effectiveRoot isalnum s) (effectiveRoot isalnum s'))

theorem unseen_change {f : Files V → Except FileError (Files V)}
    (hf : ∀ t u, f t = .ok u → FileTree.view (effectiveRoot isalnum s') u =
      FileTree.view (effectiveRoot isalnum s') t) :
    Unseen (scopeView isalnum s') (change f : StoreM V F Unit) := by
  intro st
  cases hr : f st.files with
  | ok t =>
      simp only [change, hr]
      exact Prod.ext (hf _ _ hr) rfl
  | error e =>
      simp only [change, hr]
      rfl

theorem unseen_inspect {α : Type} (f : Files V → α) :
    Unseen (scopeView isalnum s') (inspect f : StoreM V F α) :=
  fun _ => rfl

theorem unseen_openRead (path : Path) :
    Unseen (scopeView isalnum s') (openRead path : StoreM V F (Doc V)) := by
  intro st
  rw [openRead]
  cases st.files.read path with
  | ok doc => rfl
  | error e => rfl

theorem unseen_cached : Unseen (scopeView isalnum s') (cached s : StoreM V F _) :=
  fun _ => rfl

include hroots

theorem ne_of_apart : s' ≠ s := by
  intro h
  rw [h] at hroots
  exact hroots.1 (List.prefix_refl _)

theorem unseen_cache (index : Index F) :
    Unseen (scopeView isalnum s') (cache s index : StoreM V F Unit) := by
  intro st
  apply Prod.ext
  · rfl
  · exact if_neg (ne_of_apart hroots)

theorem unseen_atomicWrite {path : Path} (hp : Inside (effectiveRoot isalnum s) path)
    (data : V) : Unseen (scopeView isalnum s') (atomicWrite path data : StoreM V F Unit) := by
  have htmp := inside_withSuffix hp tmpSuffix
  have hbak := inside_withSuffix hp bakSuffix
  have hpublish : Unseen (scopeView isalnum s')
      (change (·.replace (withSuffix path tmpSuffix) path) : StoreM V F Unit) :=
    unseen_change fun t u h => FileTree.replace_apart hroots htmp.1 hp.1 h
  rw [atomicWrite]
  apply Unseen.bind
  · exact unseen_change fun t u h => FileTree.mkdirs_apart hroots (prefix_dropLast hp) h
  · intro _
    apply Unseen.bind
    · exact unseen_change fun t u h => FileTree.write_apart hroots htmp.1 htmp.2 h
    · intro _
      apply Unseen.bind (unseen_inspect _)
      intro _
      apply Unseen.ite
      · apply Unseen.bind
        · exact unseen_change fun t u h => FileTree.replace_apart hroots hp.1 hbak.1 h
        · exact fun _ => hpublish
      · exact hpublish

theorem unseen_unlinkIfPresent {path : Path} (hp : Inside (effectiveRoot isalnum s) path) :
    Unseen (scopeView isalnum s') (unlinkIfPresent path : StoreM V F Unit) := by
  rw [unlinkIfPresent]
  apply Unseen.bind (unseen_inspect _)
  intro _
  apply Unseen.ite
  · exact unseen_change fun t u h => FileTree.unlink_apart hroots hp.1 h
  · exact Unseen.pure _

omit hroots in
theorem unseen_onPath {α : Type} {key : Text} {f : Path → StoreM V F α}
    (hf : ∀ path, Inside (effectiveRoot isalnum s) path →
      Unseen (scopeView isalnum s') (f path)) :
    Unseen (scopeView isalnum s') (pathOfKey isalnum s key >>= f) := by
  rw [pathOfKey]
  cases hpath : keyToPath (effectiveRoot isalnum s) key with
  | none => exact Unseen.throw_bind _
  | some path => exact hf path (inside_keyToPath hpath)

theorem unseen_getEmbeddings :
    Unseen (scopeView isalnum s') (getEmbeddings isalnum P s : StoreM V F (Index F)) := by
  have hload : Unseen (scopeView isalnum s') (loadEmbeddings isalnum P s : StoreM V F _) := by
    rw [loadEmbeddings]
    apply Unseen.bind (unseen_inspect _)
    intro _
    apply Unseen.ite
    · apply Unseen.bind (unseen_openRead _)
      intro doc
      cases doc with
      | json v => exact Unseen.pure _
      | corrupt => exact Unseen.pure _
    · exact Unseen.pure _
  rw [getEmbeddings]
  apply Unseen.bind unseen_cached
  intro index
  cases index with
  | some index => exact Unseen.pure _
  | none =>
      apply Unseen.bind hload
      intro index
      exact Unseen.bind (unseen_cache hroots index) fun _ => Unseen.pure _

theorem unseen_saveEmbeddingsIndex (index : Index F) :
    Unseen (scopeView isalnum s') (saveEmbeddingsIndex isalnum P s index) := by
  rw [saveEmbeddingsIndex]
  exact Unseen.bind (unseen_cache hroots index) fun _ =>
    unseen_atomicWrite hroots inside_embeddingsPath _

omit hroots in
theorem unseen_load (key : Text) :
    Unseen (scopeView isalnum s') (load isalnum s key : StoreM V F (Option V)) := by
  rw [load]
  apply unseen_onPath
  intro path _
  apply Unseen.bind (unseen_inspect _)
  intro _
  apply Unseen.ite
  · apply Unseen.bind (unseen_openRead _)
    intro doc
    cases doc with
    | json v => exact Unseen.pure _
    | corrupt => exact Unseen.pure _
  · exact Unseen.pure _

theorem unseen_save (key : Text) (data : V) :
    Unseen (scopeView isalnum s') (save isalnum s key data : StoreM V F Unit) := by
  rw [save]
  exact unseen_onPath fun path hp => unseen_atomicWrite hroots hp data

theorem unseen_listKeys (keyPrefix : Text) :
    Unseen (scopeView isalnum s') (listKeys isalnum s keyPrefix : StoreM V F (List Text)) := by
  rw [listKeys]
  apply Unseen.bind
  · exact unseen_change fun t u h => FileTree.mkdirs_apart hroots (List.prefix_refl _) h
  · exact fun _ => unseen_inspect _

theorem unseen_delete (key : Text) :
    Unseen (scopeView isalnum s') (delete isalnum P s key) := by
  rw [delete]
  apply unseen_onPath
  intro path hp
  apply Unseen.bind (unseen_unlinkIfPresent hroots hp)
  intro _
  apply Unseen.bind (unseen_unlinkIfPresent hroots (inside_withSuffix hp _))
  intro _
  apply Unseen.bind (unseen_unlinkIfPresent hroots (inside_withSuffix hp _))
  intro _
  apply Unseen.bind (unseen_getEmbeddings hroots)
  intro embeddings
  exact Unseen.ite (unseen_saveEmbeddingsIndex hroots _) (Unseen.pure _)

theorem unseen_saveEmbedding (key : Text) (embedding : List F) :
    Unseen (scopeView isalnum s') (saveEmbedding isalnum P s key embedding) := by
  rw [saveEmbedding]
  apply Unseen.bind (unseen_getEmbeddings hroots)
  intro embeddings
  apply Unseen.ite
  · exact Unseen.throw_bind _
  · exact unseen_saveEmbeddingsIndex hroots _

theorem unseen_searchSimilar (embedding : List F) (limit : Nat) (keyPrefix : Text) :
    Unseen (scopeView isalnum s') (searchSimilar isalnum P s embedding limit keyPrefix) := by
  rw [searchSimilar]
  apply Unseen.bind (unseen_getEmbeddings hroots)
  intro embeddings
  apply Unseen.ite
  · exact Unseen.throw_bind _
  · exact Unseen.ite (Unseen.pure _) (Unseen.pure _)

theorem unseen_perform (op : StorageOp V F) :
    Unseen (scopeView isalnum s') (perform isalnum P (s, op)) := by
  cases op with
  | load key => exact Unseen.bind (unseen_load key) fun _ => Unseen.pure _
  | save key data => exact Unseen.bind (unseen_save hroots key data) fun _ => Unseen.pure _
  | listKeys keyPrefix =>
      exact Unseen.bind (unseen_listKeys hroots keyPrefix) fun _ => Unseen.pure _
  | delete key => exact Unseen.bind (unseen_delete hroots key) fun _ => Unseen.pure _
  | saveEmbedding key embedding =>
      exact Unseen.bind (unseen_saveEmbedding hroots key embedding) fun _ => Unseen.pure _
  | searchSimilar embedding limit keyPrefix =>
      exact Unseen.bind (unseen_searchSimilar hroots embedding limit keyPrefix)
        fun _ => Unseen.pure _

end Unseen

/-- Neither scope's answers depend on the operations of the other: in every run
of operations of the two, leaving out those of one changes no answer of the other. -/
def NonInterfering (isalnum : Char → Bool) (P : Platform V F S) (a b : Scope)
    (st : JsonStore V F) : Prop :=
  ∀ ops : List (Scope × StorageOp V F), (∀ r ∈ ops, r.1 = a ∨ r.1 = b) →
    ∀ me, me = a ∨ me = b →
      responses (perform isalnum P) (·.1 = me) st ops =
        responses (perform isalnum P) (·.1 = me) st (ops.filter (·.1 = me))

/-- Neither scope is the default one and their directories differ. -/
def SeparateRoots (isalnum : Char → Bool) (a b : Scope) : Prop :=
  a ≠ defaultScope ∧ b ≠ defaultScope ∧ effectiveRoot isalnum a ≠ effectiveRoot isalnum b

theorem apart_of_separateRoots {a b : Scope} (h : SeparateRoots isalnum a b) :
    FileTree.Apart (effectiveRoot isalnum a) (effectiveRoot isalnum b) := by
  obtain ⟨ha, hb, hne⟩ := h
  have hlen : (effectiveRoot isalnum a).length = (effectiveRoot isalnum b).length := by
    rw [effectiveRoot, effectiveRoot, if_neg ha, if_neg hb]
    rfl
  exact ⟨fun hp => hne (hp.eq_of_length hlen), fun hp => hne (hp.eq_of_length hlen.symm).symm⟩

theorem SeparateRoots.symm {a b : Scope} (h : SeparateRoots isalnum a b) :
    SeparateRoots isalnum b a :=
  ⟨h.2.1, h.1, h.2.2.symm⟩

theorem NonInterfering.symm {a b : Scope} {st : JsonStore V F}
    (h : NonInterfering isalnum P a b st) : NonInterfering isalnum P b a st :=
  fun ops hops me hme => h ops (fun r hr => (hops r hr).symm) me hme.symm

/-- Operations under separate roots do not interfere, whatever the store holds. -/
theorem nonInterfering_of_separateRoots {a b : Scope} (h : SeparateRoots isalnum a b)
    (st : JsonStore V F) : NonInterfering isalnum P a b st := by
  intro ops hops me hme
  have hview : scopeView isalnum me st = scopeView isalnum me st := rfl
  apply responses_filter _ _ hview
  · intro r _ hmine
    have hr : r.1 = me := of_decide_eq_true hmine
    rw [← hr]
    exact confined_perform r.2
  · intro r hr hother
    have hne : r.1 ≠ me := of_decide_eq_false hother
    have happart : FileTree.Apart (effectiveRoot isalnum r.1) (effectiveRoot isalnum me) := by
      cases hops r hr with
      | inl hra =>
          cases hme with
          | inl hme => exact absurd (hra.trans hme.symm) hne
          | inr hme => rw [hra, hme]; exact apart_of_separateRoots h
      | inr hrb =>
          cases hme with
          | inl hme => rw [hrb, hme]; exact apart_of_separateRoots h.symm
          | inr hme => exact absurd (hrb.trans hme.symm) hne
    exact unseen_perform happart r.2

instance (isalnum : Char → Bool) (a b : Scope) : Decidable (SeparateRoots isalnum a b) :=
  inferInstanceAs (Decidable (_ ∧ _ ∧ _))

section Interference
variable {a b : Scope}

def oneLetterKey : Text := ['x']

theorem keyToPath_oneLetterKey (root : Path) :
    keyToPath root oneLetterKey = some (dataFile root oneLetterKey) := by
  have hparts : keyParts oneLetterKey = [oneLetterKey] := by decide
  have hstem : stem oneLetterKey = oneLetterKey := by decide
  rw [keyToPath, hparts, if_neg (List.cons_ne_nil _ _), withSuffix_append_singleton, hstem]
  rfl

/-- What a run of one other operation and then one of ours answers us, with and
without the other operation. -/
theorem NonInterfering.second {me other : Scope} {st : JsonStore V F}
    (h : NonInterfering isalnum P me other st) (hne : other ≠ me) (op op' : StorageOp V F) :
    outcome (perform isalnum P (me, op) (final (perform isalnum P (other, op') st))) =
      outcome (perform isalnum P (me, op) st) := by
  have hrun := h [(other, op'), (me, op)] (by simp) me (.inl rfl)
  simpa [responses, hne] using hrun

/-- Two scopes in one directory read each other's documents. -/
theorem interferes_of_same_root (hne : a ≠ b)
    (hroot : effectiveRoot isalnum a = effectiveRoot isalnum b) (v : V) :
    ¬ NonInterfering isalnum P a b (newStore : JsonStore V F) := by
  intro h
  obtain ⟨u, hsave, -, hsaved⟩ := save_newStore isalnum P b v (keyToPath_oneLetterKey _)
    (List.cons_ne_nil _ _)
  have hnode : u.node? (dataFile (effectiveRoot isalnum b) oneLetterKey) =
      some (.file (.json v)) := by
    rw [hsaved _ dataFile_ne_nil, if_pos rfl]
  have hkey := keyToPath_oneLetterKey (effectiveRoot isalnum a)
  have hmissing : (newStore : JsonStore V F).files.node?
      (dataFile (effectiveRoot isalnum a) oneLetterKey) = none :=
    FileTree.node?_of_ne_nil dataFile_ne_nil
  have hload : ∀ st : JsonStore V F, ∀ w, load isalnum a oneLetterKey st = .ok w st →
      outcome (perform isalnum P (a, .load oneLetterKey) st) = .ok (.value w) := by
    intro st w hw
    have hbind : perform isalnum P (a, .load oneLetterKey) st = .ok (.value w) st := bind_ok hw
    rw [hbind]
    rfl
  have hsecond := h.second hne.symm (.load oneLetterKey) (.save oneLetterKey v)
  rw [hsave, hload _ _ (load_missing hkey hmissing), final,
    hload _ _ (load_json hkey (by rw [hroot]; exact hnode))] at hsecond
  cases hsecond

/-- The default scope lists the documents of every other scope. -/
theorem interferes_default (hb : b ≠ defaultScope) (v : V) :
    ¬ NonInterfering isalnum P defaultScope b (newStore : JsonStore V F) := by
  intro h
  obtain ⟨u, hsave, -, hsaved⟩ := save_newStore isalnum P b v (keyToPath_oneLetterKey _)
    (List.cons_ne_nil _ _)
  have hnode : u.node? (dataFile (effectiveRoot isalnum b) oneLetterKey) =
      some (.file (.json v)) := by
    rw [hsaved _ dataFile_ne_nil, if_pos rfl]
  have hlist : ∀ st : JsonStore V F,
      outcome (perform isalnum P (defaultScope, .listKeys []) st) =
        .ok (.keys (keysBelow [] [] st.files)) := by
    intro st
    have hmk : st.files.mkdirs (effectiveRoot isalnum defaultScope) = .ok st.files := rfl
    have hbind : perform isalnum P (defaultScope, .listKeys []) st =
        .ok (.keys (keysBelow [] [] st.files)) st := bind_ok (listKeys_eq hmk)
    rw [hbind]
    rfl
  have hsecond := h.second hb (.listKeys []) (.save oneLetterKey v)
  rw [hsave, hlist, final, hlist] at hsecond
  have hnil : keysBelow [] [] u = [] := Response.keys.inj (Except.ok.inj hsecond)
  have hlisted : listed (dataFile (effectiveRoot isalnum b) oneLetterKey) = true := by
    rw [listed, dataFile, List.getLastD_concat]
    decide
  have hpresent : u.node? ([] ++ dataFile (effectiveRoot isalnum b) oneLetterKey) ≠ none := by
    rw [List.nil_append, hnode]
    intro h
    cases h
  have hmem : pathToKey (dataFile (effectiveRoot isalnum b) oneLetterKey) ∈
      keysBelow [] [] u :=
    mem_keysBelow.mpr ⟨ List.nil_prefix, _, dataFile_ne_nil, hpresent, hlisted, rfl⟩
  rw [hnil] at hmem
  cases hmem

/-- Distinct scopes are isolated, in a new store and then in every store, exactly
when neither is the default scope and their directories differ. -/
theorem nonInterfering_iff_separateRoots (isalnum : Char → Bool) (P : Platform V F S)
    (a b : Scope) (hne : a ≠ b) :
    (NonInterfering isalnum P a b newStore ↔ SeparateRoots isalnum a b) ∧
      (SeparateRoots isalnum a b → ∀ st, NonInterfering isalnum P a b st) := by
  refine ⟨⟨?_, fun h => nonInterfering_of_separateRoots h _⟩, nonInterfering_of_separateRoots⟩
  intro h
  have v := P.ofIndex .empty
  refine ⟨?_, ?_, fun hroot => interferes_of_same_root hne hroot v h⟩
  · intro ha
    subst ha
    exact interferes_default hne.symm v h
  · intro hb
    subst hb
    exact interferes_default hne v h.symm

end Interference

section Samples

def dottedScope : Scope := ⟨['a', '.', 'b'], ['p']⟩
def underscoredScope : Scope := ⟨['a', '_', 'b'], ['p']⟩

/-- Two tenants whose names differ in a character that is not kept. -/
theorem dotted_tenant_interferes :
    dottedScope ≠ underscoredScope ∧
      ¬ NonInterfering Char.isAlphanum lengthPlatform dottedScope underscoredScope newStore :=
  ⟨by decide, interferes_of_same_root (by decide) (by decide) 0⟩

/-- Two projects of one tenant. -/
theorem two_projects_isolated :
    NonInterfering Char.isAlphanum lengthPlatform ⟨['t'], ['p']⟩ ⟨['t'], ['q']⟩ newStore :=
  (nonInterfering_iff_separateRoots Char.isAlphanum lengthPlatform ⟨['t'], ['p']⟩
    ⟨['t'], ['q']⟩ (by decide)).1.mpr (by decide)

end Samples

end Engramia.Storage
