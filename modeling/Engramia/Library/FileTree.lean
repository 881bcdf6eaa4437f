import Engramia.Library.OrderedDict
import Mathlib.Data.List.Infix

/-!
A directory tree with the calls a program makes on it: making directories,
opening for writing or reading, testing for existence, renaming and unlinking.
A path is its list of names; the root is always a directory.

The specifications at the end say what each call leaves at every path, in a
tree where whatever stands somewhere stands in a directory.
-/
namespace Engramia.Library

universe u v

inductive Node (γ : Type v) where
  | dir
  | file (content : γ)
deriving DecidableEq

inductive FileError where
  | notFound
  | isADirectory
  | notADirectory
  | fileExists
  | notEmpty
deriving DecidableEq, Repr

abbrev FileTree (ν : Type u) (γ : Type v) := OrderedDict (List ν) (Node γ)

namespace FileTree
variable {ν : Type u} {γ : Type v} [DecidableEq ν]

def node? (t : FileTree ν γ) (p : List ν) : Option (Node γ) :=
  if p = [] then some .dir else t.get? p

/-- `path.exists()` -/
def present (t : FileTree ν γ) (p : List ν) : Bool :=
  (t.node? p).isSome

def isFile (t : FileTree ν γ) (p : List ν) : Bool :=
  match t.node? p with
  | some (.file _) => true
  | _ => false

def ensureDir (t : FileTree ν γ) (p : List ν) : FileTree ν γ :=
  if t.present p then t else t.set p .dir

/-- `path.mkdir(parents=True, exist_ok=True)` -/
def mkdirs (t : FileTree ν γ) (p : List ν) : Except FileError (FileTree ν γ) :=
  if t.isFile p then .error .fileExists
  else if p.inits.any t.isFile then .error .notADirectory
  else .ok (p.inits.foldl ensureDir t)

/-- Open for writing and write a whole document. -/
def write (t : FileTree ν γ) (p : List ν) (content : γ) : Except FileError (FileTree ν γ) :=
  match t.node? p, t.node? p.dropLast with
  | some .dir, _ => .error .isADirectory
  | _, none => .error .notFound
  | _, some (.file _) => .error .notADirectory
  | _, some .dir => .ok (t.set p (.file content))

/-- Open for reading and read a whole document. -/
def read (t : FileTree ν γ) (p : List ν) : Except FileError γ :=
  match t.node? p with
  | none => .error .notFound
  | some .dir => .error .isADirectory
  | some (.file content) => .ok content

/-- Whether a path is a directory or a path below it. -/
def within (r p : List ν) : Bool :=
  decide (r <+: p)

/-- Every entry at or below `src` goes to the same place at or below `dst`,
where nothing stays of what was there. -/
def move (t : FileTree ν γ) (src dst : List ν) : FileTree ν γ where
  entries := (t.discard fun p => within src p || within dst p).entries ++
    (t.discard fun p => !within src p).entries.map
      fun e => (dst ++ e.1.drop src.length, e.2)
  unique := by
    rw [List.map_append, List.nodup_append]
    refine ⟨(t.discard _).unique, ?_, ?_⟩
    · rw [List.map_map]
      apply List.Nodup.of_map (fun p : List ν => src ++ p.drop dst.length)
      have hback : (t.discard fun p => !within src p).entries.map
          ((fun p : List ν => src ++ p.drop dst.length) ∘
            (Prod.fst ∘ fun e => (dst ++ e.1.drop src.length, e.2))) =
          (t.discard fun p => !within src p).entries.map Prod.fst := by
        apply List.map_congr_left
        intro e he
        have hsrc : src <+: e.1 := by
          simpa [within] using (OrderedDict.mem_discard.mp he).2
        obtain ⟨q, hq⟩ := hsrc
        simp [← hq]
      rw [List.map_map, hback]
      exact (t.discard _).unique
    · intro a ha b hb hab
      obtain ⟨x, hx, rfl⟩ := List.mem_map.mp ha
      rw [List.map_map] at hb
      obtain ⟨e, -, rfl⟩ := List.mem_map.mp hb
      have hout := (OrderedDict.mem_discard.mp hx).2
      rw [hab] at hout
      simp [within] at hout

/-- `os.replace`, between two names of one directory. -/
def replace (t : FileTree ν γ) (src dst : List ν) : Except FileError (FileTree ν γ) :=
  match t.node? src, t.node? dst with
  | none, _ => .error .notFound
  | some (.file _), some .dir => .error .isADirectory
  | some .dir, some (.file _) => .error .notADirectory
  | some .dir, some .dir =>
      if t.entries.any (fun e => within dst e.1 && e.1 ≠ dst) then .error .notEmpty
      else .ok (t.move src dst)
  | _, _ => .ok (t.move src dst)

def unlink (t : FileTree ν γ) (p : List ν) : Except FileError (FileTree ν γ) :=
  match t.node? p with
  | none => .error .notFound
  | some .dir => .error .isADirectory
  | some (.file _) => .ok (t.discard (· = p))

/-- The paths below `r`, relative to it. -/
def below (t : FileTree ν γ) (r : List ν) : List (List ν) :=
  ((t.entries.map Prod.fst).filter fun p => within r p && p ≠ r).map (·.drop r.length)

section Lookups
variable {t : FileTree ν γ} {p q : List ν} {n : Node γ}

@[simp] theorem node?_nil : t.node? [] = some .dir := if_pos rfl

theorem node?_of_ne_nil (hp : p ≠ []) : t.node? p = t.get? p := if_neg hp

theorem node?_set (hp : p ≠ []) :
    FileTree.node? (t.set p n) q = if q = p then some n else t.node? q := by
  by_cases hq : q = []
  · subst hq
    rw [if_neg fun h => hp h.symm]
    rfl
  · rw [node?_of_ne_nil hq, node?_of_ne_nil hq, OrderedDict.get?_set]

theorem node?_ensureDir :
    (t.ensureDir p).node? q = if q = p then some ((t.node? p).getD .dir) else t.node? q := by
  by_cases hpre : t.present p = true
  · rw [ensureDir, if_pos hpre]
    by_cases hq : q = p
    · obtain ⟨n, hn⟩ := Option.isSome_iff_exists.mp hpre
      rw [if_pos hq, hq, hn]
      rfl
    · rw [if_neg hq]
  · have hnone : t.node? p = none := by simpa [present] using hpre
    have hp : p ≠ [] := fun h => by rw [h, node?_nil] at hnone; cases hnone
    rw [ensureDir, if_neg hpre, node?_set hp, hnone]
    rfl

/-- Making a directory where something stands changes nothing. -/
theorem isFile_ensureDir : (t.ensureDir p).isFile q = t.isFile q := by
  rw [isFile, isFile, node?_ensureDir]
  by_cases hq : q = p
  · rw [if_pos hq, hq]
    cases t.node? p <;> rfl
  · rw [if_neg hq]

theorem isFile_foldl_ensureDir (ps : List (List ν)) :
    (ps.foldl ensureDir t).isFile q = t.isFile q := by
  induction ps generalizing t with
  | nil => rfl
  | cons p ps ih => rw [List.foldl_cons, ih, isFile_ensureDir]

theorem within_iff : within p q = true ↔ p <+: q := decide_eq_true_iff

end Lookups

section Moving
variable {t : FileTree ν γ} {src dst q : List ν}

theorem mem_move {e : List ν × Node γ} :
    e ∈ (t.move src dst).entries ↔
      (e ∈ t.entries ∧ ¬ src <+: e.1 ∧ ¬ dst <+: e.1) ∨
        ∃ q, e.1 = dst ++ q ∧ (src ++ q, e.2) ∈ t.entries := by
  have hout : (e ∈ (t.discard fun p => within src p || within dst p).entries) ↔
      e ∈ t.entries ∧ ¬ src <+: e.1 ∧ ¬ dst <+: e.1 := by
    simp [OrderedDict.mem_discard, within]
  rw [move, List.mem_append, hout]
  apply or_congr_right
  rw [List.mem_map]
  constructor
  · intro h
    obtain ⟨x, hx, rfl⟩ := h
    have hx' := OrderedDict.mem_discard.mp hx
    obtain ⟨q, hq⟩ : src <+: x.1 := by simpa [within] using hx'.2
    refine ⟨x.1.drop src.length, rfl, ?_⟩
    rw [← hq, List.drop_left, hq]
    exact hx'.1
  · intro h
    obtain ⟨q, hq, hx⟩ := h
    refine ⟨(src ++ q, e.2), ?_, ?_⟩
    · rw [OrderedDict.mem_discard]
      exact ⟨hx, by simp [within]⟩
    · rw [List.drop_left, ← hq]

theorem get?_move :
    (t.move src dst).get? q =
      if dst <+: q then t.get? (src ++ q.drop dst.length)
      else if src <+: q then none else t.get? q := by
  by_cases hdst : dst <+: q
  · rw [if_pos hdst, OrderedDict.get?_eq_iff]
    intro n
    obtain ⟨x, rfl⟩ := hdst
    rw [mem_move, List.drop_left]
    constructor
    · intro h
      cases h with
      | inl h => exact absurd (List.prefix_append _ _) h.2.2
      | inr h =>
          obtain ⟨y, hy, hmem⟩ := h
          rw [List.append_cancel_left hy]
          exact hmem
    · intro h
      exact .inr ⟨x, rfl, h⟩
  · rw [if_neg hdst]
    have hnot : ∀ n : Node γ, ¬ ∃ x, q = dst ++ x ∧ (src ++ x, n) ∈ t.entries := by
      intro n h
      obtain ⟨x, hx, -⟩ := h
      exact hdst (hx ▸ List.prefix_append _ _)
    by_cases hsrc : src <+: q
    · rw [if_pos hsrc, Option.eq_none_iff_forall_ne_some]
      intro n hn
      rw [OrderedDict.get?_eq_some, mem_move] at hn
      cases hn with
      | inl h => exact h.2.1 hsrc
      | inr h => exact hnot n h
    · rw [if_neg hsrc, OrderedDict.get?_eq_iff]
      intro n
      rw [mem_move, or_iff_left (hnot n)]
      exact and_iff_left ⟨hsrc, hdst⟩

end Moving

section Specifications
variable {t : FileTree ν γ} {p src dst : List ν} {c : γ}

/-- Whatever stands somewhere stands in a directory. -/
def Grounded (t : FileTree ν γ) : Prop :=
  ∀ p q, t.present p = true → q <+: p → q ≠ p → t.node? q = some .dir

theorem present_iff : t.present p = true ↔ t.node? p ≠ none := by
  rw [present, Option.isSome_iff_ne_none]

theorem mem_below {r q : List ν} : q ∈ t.below r ↔ q ≠ [] ∧ t.node? (r ++ q) ≠ none := by
  rw [below, List.mem_map]
  constructor
  · intro h
    obtain ⟨p, hp, rfl⟩ := h
    obtain ⟨hmem, hp⟩ := List.mem_filter.mp hp
    simp only [Bool.and_eq_true, decide_eq_true_eq, within] at hp
    obtain ⟨⟨x, rfl⟩, hne⟩ := hp
    have hx : x ≠ [] := fun h => hne (by rw [h, List.append_nil])
    obtain ⟨e, he, hep⟩ := List.mem_map.mp hmem
    have hget : t.get? (r ++ x) = some e.2 := by
      rw [OrderedDict.get?_eq_some, ← hep]
      exact he
    rw [List.drop_left, node?_of_ne_nil (List.append_ne_nil_of_right_ne_nil r hx), hget]
    exact ⟨hx, Option.some_ne_none _⟩
  · intro h
    obtain ⟨hq, hn⟩ := h
    refine ⟨r ++ q, List.mem_filter.mpr ⟨?_, ?_⟩, List.drop_left⟩
    · rw [node?_of_ne_nil (List.append_ne_nil_of_right_ne_nil r hq)] at hn
      obtain ⟨n, hget⟩ := Option.ne_none_iff_exists'.mp hn
      exact List.mem_map.mpr ⟨(r ++ q, n), OrderedDict.get?_eq_some.mp hget, rfl⟩
    · simpa [within] using hq

theorem nodup_below (r : List ν) : (t.below r).Nodup := by
  rw [below]
  apply List.Nodup.map_on
  · intro p hp q hq h
    have hp' := (List.mem_filter.mp hp).2
    have hq' := (List.mem_filter.mp hq).2
    simp only [Bool.and_eq_true, within_iff] at hp' hq'
    obtain ⟨x, rfl⟩ := hp'.1
    obtain ⟨y, rfl⟩ := hq'.1
    rw [List.drop_left, List.drop_left] at h
    rw [h]
  · exact t.unique.filter _

theorem grounded_empty : Grounded (OrderedDict.empty : FileTree ν γ) := by
  intro p q hp hq hne
  have hnil : p = [] := by
    cases p with
    | nil => rfl
    | cons x p => cases hp
  rw [hnil] at hq hne
  exact absurd (List.prefix_nil.mp hq) hne

theorem Grounded.none_below (h : t.Grounded) (hp : t.node? p ≠ some .dir) {q : List ν}
    (hq : p <+: q) (hne : p ≠ q) : t.node? q = none := by
  cases hn : t.node? q with
  | none => rfl
  | some n => exact absurd (h q p (by rw [present, hn]; rfl) hq hne) hp

theorem node?_foldl_ensureDir (ps : List (List ν)) (q : List ν) :
    (ps.foldl ensureDir t).node? q =
      if q ∈ ps then some ((t.node? q).getD .dir) else t.node? q := by
  induction ps generalizing t with
  | nil => rfl
  | cons p ps ih =>
      rw [List.foldl_cons, ih, node?_ensureDir]
      by_cases hqp : q = p
      · subst hqp
        by_cases hmem : q ∈ ps <;> simp [hmem]
      · by_cases hmem : q ∈ ps <;> simp [hmem, hqp]

theorem mkdirs_spec (ht : t.Grounded) (hfree : ∀ q, q <+: p → t.isFile q = false) :
    ∃ u, t.mkdirs p = .ok u ∧ u.Grounded ∧
      ∀ q, u.node? q = if q <+: p then some .dir else t.node? q := by
  have hnode : ∀ q, (p.inits.foldl ensureDir t).node? q =
      if q <+: p then some .dir else t.node? q := by
    intro q
    rw [node?_foldl_ensureDir, if_congr (List.mem_inits q p) rfl rfl]
    by_cases hq : q <+: p
    · rw [if_pos hq, if_pos hq]
      have hfile := hfree q hq
      rw [isFile] at hfile
      cases hn : t.node? q with
      | none => rfl
      | some n =>
          cases n with
          | dir => rfl
          | file c => rw [hn] at hfile; cases hfile
    · rw [if_neg hq, if_neg hq]
  refine ⟨p.inits.foldl ensureDir t, ?_, ?_, hnode⟩
  · rw [mkdirs, if_neg, if_neg]
    · intro hany
      obtain ⟨q, hq, hfile⟩ := List.any_eq_true.mp hany
      rw [hfree q ((List.mem_inits q p).mp hq)] at hfile
      cases hfile
    · rw [hfree p (List.prefix_refl p)]
      exact Bool.false_ne_true
  · intro x q hx hq hne
    rw [hnode]
    by_cases hqp : q <+: p
    · rw [if_pos hqp]
    · rw [if_neg hqp]
      rw [present_iff, hnode, if_neg fun hxp => hqp (hq.trans hxp), ← present_iff] at hx
      exact ht x q hx hq hne

omit [DecidableEq ν] in
theorem prefix_dropLast {q p : List ν} (hq : q <+: p) (hne : p ≠ q) : q <+: p.dropLast := by
  obtain ⟨x, rfl⟩ := hq
  have hx : x ≠ [] := fun h => hne (by rw [h, List.append_nil])
  rw [List.dropLast_append_of_ne_nil hx]
  exact List.prefix_append _ _

/-- Every directory above a path whose parent is one. -/
theorem Grounded.above (ht : t.Grounded) (hparent : t.node? p.dropLast = some .dir)
    {q : List ν} (hq : q <+: p) (hne : q ≠ p) : t.node? q = some .dir := by
  have hq' := prefix_dropLast hq (Ne.symm hne)
  by_cases heq : q = p.dropLast
  · rw [heq, hparent]
  · exact ht p.dropLast q (by rw [present, hparent]; rfl) hq' heq

theorem write_spec (ht : t.Grounded) (hparent : t.node? p.dropLast = some .dir)
    (hp : t.node? p ≠ some .dir) :
    ∃ u, t.write p c = .ok u ∧ u.Grounded ∧
      ∀ q, u.node? q = if q = p then some (.file c) else t.node? q := by
  have hnil : p ≠ [] := fun h => hp (by rw [h, node?_nil])
  have hnode : ∀ q, FileTree.node? (t.set p (.file c)) q =
      if q = p then some (.file c) else t.node? q := fun q => node?_set hnil
  refine ⟨t.set p (.file c), ?_, ?_, hnode⟩
  · rw [write, hparent]
    cases hn : t.node? p with
    | none => rfl
    | some n =>
        cases n with
        | dir => exact absurd hn hp
        | file _ => rfl
  · intro x q hx hq hne
    have hdir : t.node? q = some .dir := by
      by_cases hxp : x = p
      · subst hxp
        exact ht.above hparent hq hne
      · rw [present_iff, hnode, if_neg hxp, ← present_iff] at hx
        exact ht x q hx hq hne
    have hne' : q ≠ p := fun h => hp (by rw [← h, hdir])
    rw [hnode, if_neg hne', hdir]

theorem replace_spec (src dst : List ν) (ht : t.Grounded) (hsrc : t.node? src = some (.file c))
    (hdst : t.node? dst ≠ some .dir) (hparent : t.node? dst.dropLast = some .dir) :
    ∃ u, t.replace src dst = .ok u ∧ u.Grounded ∧
      ∀ q, u.node? q =
        if q = dst then some (.file c) else if q = src then none else t.node? q := by
  have hsrcdir : t.node? src ≠ some .dir := by rw [hsrc]; intro h; cases h
  have hnode : ∀ q, (t.move src dst).node? q =
      if q = dst then some (.file c) else if q = src then none else t.node? q := by
    intro q
    by_cases hnil : q = []
    · subst hnil
      rw [if_neg fun h => hdst (by rw [← h, node?_nil]),
        if_neg fun h => hsrcdir (by rw [← h, node?_nil]), node?_nil, node?_nil]
    · rw [node?_of_ne_nil hnil, get?_move]
      by_cases hqd : q = dst
      · subst hqd
        have hsrcnil : src ≠ [] := fun h => hsrcdir (by rw [h, node?_nil])
        rw [if_pos (List.prefix_refl q), if_pos rfl, List.drop_length, List.append_nil,
          ← node?_of_ne_nil hsrcnil, hsrc]
      · rw [if_neg hqd]
        by_cases hbelow : dst <+: q
        · rw [if_pos hbelow]
          obtain ⟨x, rfl⟩ := hbelow
          have hx : x ≠ [] := fun h => hqd (by rw [h, List.append_nil])
          have hnone : t.node? (src ++ x) = none :=
            ht.none_below hsrcdir (List.prefix_append _ _)
              fun h => hx (List.append_right_eq_self.mp h.symm)
          rw [List.drop_left, ← node?_of_ne_nil (List.append_ne_nil_of_right_ne_nil src hx), hnone]
          by_cases hqs : dst ++ x = src
          · rw [if_pos hqs]
          · rw [if_neg hqs, ht.none_below hdst (List.prefix_append _ _) fun h => hqd h.symm]
        · rw [if_neg hbelow]
          by_cases hqs : q = src
          · rw [if_pos hqs, if_pos (hqs ▸ List.prefix_refl _)]
          · rw [if_neg hqs]
            by_cases hbelow' : src <+: q
            · rw [if_pos hbelow', ht.none_below hsrcdir hbelow' fun h => hqs h.symm]
            · rw [if_neg hbelow', node?_of_ne_nil hnil]
  refine ⟨t.move src dst, ?_, ?_, hnode⟩
  · rw [replace, hsrc]
    cases hn : t.node? dst with
    | none => rfl
    | some n =>
        cases n with
        | dir => exact absurd hn hdst
        | file _ => rfl
  · intro x q hx hq hne
    have hdir : t.node? q = some .dir := by
      by_cases hxd : x = dst
      · subst hxd
        exact ht.above hparent hq hne
      · rw [present_iff, hnode, if_neg hxd] at hx
        by_cases hxs : x = src
        · rw [if_pos hxs] at hx
          exact absurd rfl hx
        · rw [if_neg hxs, ← present_iff] at hx
          exact ht x q hx hq hne
    have hned : q ≠ dst := fun h => hdst (by rw [← h, hdir])
    have hnes : q ≠ src := fun h => hsrcdir (by rw [← h, hdir])
    rw [hnode, if_neg hned, if_neg hnes, hdir]

theorem unlink_spec (ht : t.Grounded) (hp : t.node? p = some (.file c)) :
    ∃ u, t.unlink p = .ok u ∧ u.Grounded ∧
      ∀ q, u.node? q = if q = p then none else t.node? q := by
  have hnil : p ≠ [] := fun h => by rw [h, node?_nil] at hp; cases hp
  have hnode : ∀ q, FileTree.node? (t.discard (· = p)) q =
      if q = p then none else t.node? q := by
    intro q
    by_cases hq : q = []
    · subst hq
      rw [node?_nil, node?_nil, if_neg fun h => hnil h.symm]
    · rw [node?_of_ne_nil hq, node?_of_ne_nil hq, OrderedDict.get?_discard]
      by_cases hqp : q = p <;> simp [hqp]
  refine ⟨t.discard (· = p), ?_, ?_, hnode⟩
  · rw [unlink, hp]
  · intro x q hx hq hne
    have hx' : t.present x = true := by
      rw [present_iff, hnode] at hx
      by_cases hxp : x = p
      · rw [if_pos hxp] at hx
        exact absurd rfl hx
      · rwa [if_neg hxp, ← present_iff] at hx
    have hdir := ht x q hx' hq hne
    rw [hnode, if_neg, hdir]
    intro hqp
    rw [hqp, hp] at hdir
    cases hdir

end Specifications

end FileTree

end Engramia.Library
