import Engramia.Library.FileTree

/-!
What a program confined to one directory can see of a directory tree. Every call
on paths strictly below the directory is determined by what is in view, and no
such call changes what is in view from a directory apart from it, one that
neither contains it nor is contained in it.
-/
namespace Engramia.Library

universe u v

namespace FileTree
variable {ν : Type u} {γ : Type v} [DecidableEq ν]

section Confinement
variable {t t' : FileTree ν γ} {r r' p q src dst : List ν} {n : Node γ}

/-- The entries at and below a directory. -/
def restrict (r : List ν) (t : FileTree ν γ) : FileTree ν γ :=
  t.discard fun p => !within r p

/-- A file stands in place of an ancestor of the directory. -/
def blocked (r : List ν) (t : FileTree ν γ) : Bool :=
  r.inits.any fun p => p ≠ r && t.isFile p

/-- What a program confined to the directory `r` can see. -/
def view (r : List ν) (t : FileTree ν γ) : FileTree ν γ × Bool :=
  (restrict r t, blocked r t)

section Apart
omit [DecidableEq ν]

/-- Neither directory contains the other. -/
def Apart (r r' : List ν) : Prop :=
  ¬ r <+: r' ∧ ¬ r' <+: r

theorem Apart.symm (h : Apart r r') : Apart r' r := ⟨h.2, h.1⟩

theorem Apart.not_within (h : Apart r r') (hp : r <+: p) : ¬ r' <+: p := by
  intro hp'
  cases List.prefix_or_prefix_of_prefix hp hp' with
  | inl hle => exact h.1 hle
  | inr hle => exact h.2 hle

theorem Apart.not_above (h : Apart r r') (hp : r <+: p) : ¬ p <+: r' :=
  fun hp' => h.1 (hp.trans hp')

end Apart

theorem not_within_eq_false (h : r <+: p) : (!within r p) = false := by
  rw [within_iff.mpr h]
  rfl

theorem not_within_eq_true (h : ¬ r <+: p) : (!within r p) = true := by
  simpa [within] using h

theorem node?_restrict (hp : r <+: p) : node? (restrict r t) p = t.node? p := by
  by_cases hnil : p = []
  · rw [hnil, node?_nil, node?_nil]
  · rw [node?_of_ne_nil hnil, node?_of_ne_nil hnil, restrict, OrderedDict.get?_discard,
      not_within_eq_false hp]
    rfl

theorem restrict_set (hp : r <+: p) : restrict r (t.set p n) = (restrict r t).set p n :=
  OrderedDict.discard_set (not_within_eq_false hp)

theorem restrict_set_outside (hp : ¬ r <+: p) : restrict r (t.set p n) = restrict r t :=
  OrderedDict.discard_set_of_discarded (not_within_eq_true hp)

theorem blocked_congr (h : ∀ p, p <+: r → p ≠ r → t.isFile p = t'.isFile p) :
    blocked r t = blocked r t' := by
  rw [blocked, blocked, Bool.eq_iff_iff, List.any_eq_true, List.any_eq_true]
  apply exists_congr
  intro p
  rw [List.mem_inits]
  apply and_congr_right
  intro hp
  by_cases hne : p = r
  · simp [hne]
  · rw [h p hp hne]

theorem isFile_set_of_ne (hp : p ≠ []) (hq : q ≠ p) : isFile (t.set p n) q = t.isFile q := by
  rw [isFile, isFile, node?_set hp, if_neg hq]

theorem blocked_set (hp : p ≠ []) (hout : ¬ p <+: r ∨ p = r) :
    blocked r (t.set p n) = blocked r t := by
  apply blocked_congr
  intro q hq hne
  apply isFile_set_of_ne hp
  intro hqp
  cases hout with
  | inl hout => exact hout (hqp ▸ hq)
  | inr hout => exact hne (hqp.trans hout)

theorem restrict_ensureDir (hp : r <+: p) :
    restrict r (t.ensureDir p) = (restrict r t).ensureDir p := by
  rw [ensureDir, ensureDir, present, present, node?_restrict hp]
  by_cases h : (t.node? p).isSome = true
  · rw [if_pos h, if_pos h]
  · rw [if_neg h, if_neg h, restrict_set hp]

theorem restrict_ensureDir_outside (hp : ¬ r <+: p) :
    restrict r (t.ensureDir p) = restrict r t := by
  rw [ensureDir]
  by_cases h : t.present p = true
  · rw [if_pos h]
  · rw [if_neg h, restrict_set_outside hp]

theorem restrict_foldl_ensureDir (h : restrict r t = restrict r t') (ps : List (List ν)) :
    restrict r (ps.foldl ensureDir t) = restrict r (ps.foldl ensureDir t') := by
  induction ps generalizing t t' with
  | nil => exact h
  | cons p ps ih =>
      apply ih
      by_cases hp : r <+: p
      · rw [restrict_ensureDir hp, restrict_ensureDir hp, h]
      · rw [restrict_ensureDir_outside hp, restrict_ensureDir_outside hp, h]

theorem restrict_foldl_ensureDir_outside {ps : List (List ν)} (h : ∀ p ∈ ps, ¬ r <+: p) :
    restrict r (ps.foldl ensureDir t) = restrict r t := by
  induction ps generalizing t with
  | nil => rfl
  | cons p ps ih =>
      rw [List.foldl_cons, ih fun q hq => h q (List.mem_cons_of_mem p hq),
        restrict_ensureDir_outside (h p List.mem_cons_self)]

theorem blocked_foldl_ensureDir (ps : List (List ν)) :
    blocked r (ps.foldl ensureDir t) = blocked r t :=
  blocked_congr fun _ _ _ => isFile_foldl_ensureDir ps

theorem view_eq_iff :
    view r t = view r t' ↔ restrict r t = restrict r t' ∧ blocked r t = blocked r t' :=
  Prod.mk.injEq _ _ _ _ ▸ Iff.rfl

theorem node?_of_view (h : view r t = view r t') (hp : r <+: p) :
    t.node? p = t'.node? p := by
  rw [← node?_restrict hp, (view_eq_iff.mp h).1, node?_restrict hp]

theorem isFile_of_view (h : view r t = view r t') (hp : r <+: p) :
    t.isFile p = t'.isFile p := by
  rw [isFile, isFile, node?_of_view h hp]

/-- Whether a path below the directory passes through a file. -/
theorem inits_any_isFile_of_view (h : view r t = view r t') (hp : r <+: p) :
    p.inits.any t.isFile = p.inits.any t'.isFile := by
  have hsplit : ∀ u : FileTree ν γ, p.inits.any u.isFile =
      (blocked r u || p.inits.any fun q => within r q && u.isFile q) := by
    intro u
    rw [Bool.eq_iff_iff, Bool.or_eq_true, blocked, List.any_eq_true, List.any_eq_true,
      List.any_eq_true]
    constructor
    · intro hany
      obtain ⟨q, hq, hfile⟩ := hany
      by_cases hin : r <+: q
      · exact .inr ⟨q, hq, by rw [within_iff.mpr hin, hfile]; rfl⟩
      · refine .inl ⟨q, ?_, ?_⟩
        · cases List.prefix_or_prefix_of_prefix ((List.mem_inits q _).mp hq) hp with
          | inl hle => exact (List.mem_inits q _).mpr hle
          | inr hle => exact absurd hle hin
        · have hne : q ≠ r := fun hqr => hin (hqr ▸ List.prefix_refl _)
          simp [hne, hfile]
    · intro hany
      cases hany with
      | inl hany =>
          obtain ⟨q, hq, hfile⟩ := hany
          refine ⟨q, (List.mem_inits q _).mpr (((List.mem_inits q _).mp hq).trans hp), ?_⟩
          simp only [Bool.and_eq_true] at hfile
          exact hfile.2
      | inr hany =>
          obtain ⟨q, hq, hfile⟩ := hany
          simp only [Bool.and_eq_true] at hfile
          exact ⟨q, hq, hfile.2⟩
  rw [hsplit t, hsplit t', (view_eq_iff.mp h).2]
  congr 1
  rw [Bool.eq_iff_iff, List.any_eq_true, List.any_eq_true]
  apply exists_congr
  intro q
  apply and_congr_right
  intro _
  by_cases hin : r <+: q
  · rw [isFile_of_view h hin]
  · simp [within, hin]

section Operations
variable {content : γ}

omit [DecidableEq ν] in
theorem ne_nil_of_below (hp : r <+: p) (hne : p ≠ r) : p ≠ [] := by
  intro h
  subst h
  exact hne (List.prefix_nil.mp hp).symm

omit [DecidableEq ν] in
theorem not_prefix_of_below (hp : r <+: p) (hne : p ≠ r) : ¬ p <+: r :=
  fun h => hne (h.eq_of_length (Nat.le_antisymm h.length_le hp.length_le))

theorem view_set (h : view r t = view r t') (hp : r <+: p) (hne : p ≠ r) :
    view r (t.set p n) = view r (t'.set p n) := by
  have h' := view_eq_iff.mp h
  have hnil := ne_nil_of_below hp hne
  have hout := not_prefix_of_below hp hne
  rw [view_eq_iff, restrict_set hp, restrict_set hp, blocked_set hnil (.inl hout),
    blocked_set hnil (.inl hout)]
  exact ⟨by rw [h'.1], h'.2⟩

theorem view_set_apart (h : Apart r r') (hp : r <+: p) (hne : p ≠ r) :
    view r' (t.set p n) = view r' t := by
  rw [view_eq_iff]
  exact ⟨restrict_set_outside (h.not_within hp),
    blocked_set (ne_nil_of_below hp hne) (.inl (h.not_above hp))⟩

theorem mkdirs_of_view (h : view r t = view r t') (hp : r <+: p) :
    (t.mkdirs p).map (view r) = (t'.mkdirs p).map (view r) := by
  rw [mkdirs, mkdirs, isFile_of_view h hp, inits_any_isFile_of_view h hp]
  by_cases hfile : t'.isFile p = true
  · rw [if_pos hfile, if_pos hfile]
  · rw [if_neg hfile, if_neg hfile]
    by_cases hany : p.inits.any t'.isFile = true
    · rw [if_pos hany, if_pos hany]
    · rw [if_neg hany, if_neg hany]
      apply congrArg Except.ok
      rw [view_eq_iff, blocked_foldl_ensureDir, blocked_foldl_ensureDir]
      exact ⟨restrict_foldl_ensureDir (view_eq_iff.mp h).1 _, (view_eq_iff.mp h).2⟩

theorem mkdirs_apart (h : Apart r r') (hp : r <+: p) {u : FileTree ν γ}
    (hok : t.mkdirs p = .ok u) : view r' u = view r' t := by
  rw [mkdirs] at hok
  by_cases hfile : t.isFile p = true
  · rw [if_pos hfile] at hok
    cases hok
  · rw [if_neg hfile] at hok
    by_cases hany : p.inits.any t.isFile = true
    · rw [if_pos hany] at hok
      cases hok
    · rw [if_neg hany] at hok
      cases hok
      rw [view_eq_iff, blocked_foldl_ensureDir]
      refine ⟨restrict_foldl_ensureDir_outside ?_, rfl⟩
      intro q hq hin
      exact h.not_within hp (hin.trans ((List.mem_inits q p).mp hq))

theorem write_of_view (h : view r t = view r t') (hp : r <+: p) (hne : p ≠ r) :
    (t.write p content).map (view r) = (t'.write p content).map (view r) := by
  rw [write, write, node?_of_view h hp, node?_of_view h (prefix_dropLast hp hne)]
  have hset : view r (t.set p (.file content)) = view r (t'.set p (.file content)) :=
    view_set h hp hne
  cases t'.node? p with
  | none =>
      cases t'.node? p.dropLast with
      | none => rfl
      | some m =>
          cases m with
          | file _ => rfl
          | dir => exact congrArg Except.ok hset
  | some m =>
      cases m with
      | dir => rfl
      | file _ =>
          cases t'.node? p.dropLast with
          | none => rfl
          | some m =>
              cases m with
              | file _ => rfl
              | dir => exact congrArg Except.ok hset

/-- A successful write assigns one path. -/
theorem write_eq_ok {u : FileTree ν γ} (hok : t.write p content = .ok u) :
    u = t.set p (.file content) := by
  rw [write] at hok
  split at hok
  · cases hok
  · cases hok
  · cases hok
  · cases hok
    rfl

theorem write_apart (h : Apart r r') (hp : r <+: p) (hne : p ≠ r) {u : FileTree ν γ}
    (hok : t.write p content = .ok u) : view r' u = view r' t := by
  rw [write_eq_ok hok]
  exact view_set_apart h hp hne

theorem read_of_view (h : view r t = view r t') (hp : r <+: p) :
    t.read p = t'.read p := by
  rw [read, read, node?_of_view h hp]

theorem restrict_erase :
    restrict r (t.discard (· = p)) = (restrict r t).discard (· = p) :=
  OrderedDict.discard_discard _ _

theorem blocked_erase (hout : ¬ p <+: r) : blocked r (t.discard (· = p)) = blocked r t := by
  apply blocked_congr
  intro q hq _
  have hne : q ≠ p := fun h => hout (h ▸ hq)
  by_cases hnil : q = []
  · rw [isFile, isFile, hnil, node?_nil, node?_nil]
  · rw [isFile, isFile, node?_of_ne_nil hnil, node?_of_ne_nil hnil, OrderedDict.get?_discard,
      if_neg (by simpa using hne)]

theorem unlink_of_view (h : view r t = view r t') (hp : r <+: p) (hne : p ≠ r) :
    (t.unlink p).map (view r) = (t'.unlink p).map (view r) := by
  rw [unlink, unlink, node?_of_view h hp]
  cases t'.node? p with
  | none => rfl
  | some m =>
      cases m with
      | dir => rfl
      | file _ =>
          apply congrArg Except.ok
          have h' := view_eq_iff.mp h
          have hout := not_prefix_of_below hp hne
          rw [view_eq_iff, blocked_erase hout, blocked_erase hout, restrict_erase,
            restrict_erase, h'.1]
          exact ⟨rfl, h'.2⟩

theorem unlink_apart (h : Apart r r') (hp : r <+: p) {u : FileTree ν γ}
    (hok : t.unlink p = .ok u) : view r' u = view r' t := by
  rw [unlink] at hok
  split at hok
  · cases hok
  · cases hok
  · cases hok
    rw [view_eq_iff, blocked_erase (h.not_above hp)]
    refine ⟨OrderedDict.discard_of_subset ?_, rfl⟩
    intro q hq
    have hqp : q = p := of_decide_eq_true hq
    rw [hqp]
    exact not_within_eq_true (h.not_within hp)

theorem restrict_move (hsrc : r <+: src) (hdst : r <+: dst) :
    restrict r (t.move src dst) = move (restrict r t) src dst := by
  apply OrderedDict.ext_entries
  have hkept : ∀ e : List ν × Node γ,
      (!!within r (dst ++ e.1.drop src.length)) = true := by
    intro e
    rw [within_iff.mpr (hdst.trans (List.prefix_append _ _))]
    rfl
  simp only [restrict, OrderedDict.discard, move, List.filter_append, List.filter_map,
    List.filter_filter]
  congr 1
  · apply List.filter_congr
    intro e _
    exact Bool.and_comm _ _
  · congr 1
    apply List.filter_congr
    intro e _
    rw [Function.comp_apply, hkept e]
    by_cases hin : src <+: e.1
    · simp [within, hin, hsrc.trans hin]
    · simp [within, hin]

theorem restrict_move_apart (hsrc : r <+: src) (hdst : r <+: dst) (h : Apart r r') :
    restrict r' (t.move src dst) = restrict r' t := by
  apply OrderedDict.ext_entries
  have hgone : ∀ e : List ν × Node γ,
      (!!within r' (dst ++ e.1.drop src.length)) = false := by
    intro e
    simpa [within] using h.not_within (hdst.trans (List.prefix_append _ _))
  simp only [restrict, OrderedDict.discard, move, List.filter_append, List.filter_map,
    List.filter_filter]
  have hnil : (t.entries.filter fun e =>
      ((fun x => !!within r' x.1) ∘ fun e => (dst ++ e.1.drop src.length, e.2)) e &&
        !!within src e.1) = [] := by
    rw [List.filter_eq_nil_iff]
    intro e _
    rw [Function.comp_apply, hgone e]
    exact Bool.false_ne_true
  rw [hnil, List.map_nil, List.append_nil]
  apply List.filter_congr
  intro e _
  by_cases hin : r' <+: e.1
  · have hs : ¬ src <+: e.1 := fun hs => h.not_within (hsrc.trans hs) hin
    have hd : ¬ dst <+: e.1 := fun hd => h.not_within (hdst.trans hd) hin
    simp [within, hin, hs, hd]
  · simp [within, hin]

theorem blocked_move (hsrc : ¬ src <+: r) (hdst : ¬ dst <+: r) :
    blocked r (t.move src dst) = blocked r t := by
  apply blocked_congr
  intro q hq _
  by_cases hnil : q = []
  · rw [isFile, isFile, hnil, node?_nil, node?_nil]
  · rw [isFile, isFile, node?_of_ne_nil hnil, node?_of_ne_nil hnil, get?_move,
      if_neg fun h => hdst (h.trans hq), if_neg fun h => hsrc (h.trans hq)]

theorem view_move (h : view r t = view r t') (hsrc : r <+: src) (hne : src ≠ r)
    (hdst : r <+: dst) (hne' : dst ≠ r) :
    view r (t.move src dst) = view r (t'.move src dst) := by
  have h' := view_eq_iff.mp h
  have hout := not_prefix_of_below hsrc hne
  have hout' := not_prefix_of_below hdst hne'
  rw [view_eq_iff, restrict_move hsrc hdst, restrict_move hsrc hdst, blocked_move hout hout',
    blocked_move hout hout', h'.1]
  exact ⟨rfl, h'.2⟩

/-- Whether a directory holds anything, read below the directory in view. -/
theorem any_below_of_view (h : view r t = view r t') (hdst : r <+: dst) :
    t.entries.any (fun e => within dst e.1 && e.1 ≠ dst) =
      t'.entries.any fun e => within dst e.1 && e.1 ≠ dst := by
  have hrestrict : ∀ u : FileTree ν γ,
      u.entries.any (fun e => within dst e.1 && e.1 ≠ dst) =
        (restrict r u).entries.any fun e => within dst e.1 && e.1 ≠ dst := by
    intro u
    rw [restrict, OrderedDict.discard, List.any_filter]
    congr 1
    funext e
    by_cases hin : dst <+: e.1
    · simp [within, hin, hdst.trans hin]
    · simp [within, hin]
  rw [hrestrict t, hrestrict t', (view_eq_iff.mp h).1]

theorem replace_of_view (h : view r t = view r t') (hsrc : r <+: src) (hne : src ≠ r)
    (hdst : r <+: dst) (hne' : dst ≠ r) :
    (t.replace src dst).map (view r) = (t'.replace src dst).map (view r) := by
  have hmove : view r (t.move src dst) = view r (t'.move src dst) :=
    view_move h hsrc hne hdst hne'
  rw [replace, replace, node?_of_view h hsrc, node?_of_view h hdst, any_below_of_view h hdst]
  split
  · rfl
  · rfl
  · rfl
  · split
    · rfl
    · exact congrArg Except.ok hmove
  · exact congrArg Except.ok hmove

/-- A successful rename moves the entry and whatever is below it. -/
theorem replace_eq_ok {u : FileTree ν γ} (hok : t.replace src dst = .ok u) :
    u = t.move src dst := by
  rw [replace] at hok
  split at hok
  · cases hok
  · cases hok
  · cases hok
  · split at hok
    · cases hok
    · cases hok
      rfl
  · cases hok
    rfl

theorem replace_apart (h : Apart r r') (hsrc : r <+: src) (hdst : r <+: dst) {u : FileTree ν γ}
    (hok : t.replace src dst = .ok u) : view r' u = view r' t := by
  rw [replace_eq_ok hok, view_eq_iff]
  exact ⟨restrict_move_apart hsrc hdst h,
    blocked_move (h.not_above hsrc) (h.not_above hdst)⟩

theorem below_of_view (h : view r t = view r t') (hp : r <+: p) :
    t.below p = t'.below p := by
  have hrestrict : ∀ u : FileTree ν γ, u.below p = below (restrict r u) p := by
    intro u
    simp only [below, restrict, OrderedDict.discard, List.filter_map, List.filter_filter]
    congr 2
    apply List.filter_congr
    intro e _
    by_cases hin : p <+: e.1
    · simp [within, hin, hp.trans hin]
    · simp [within, hin]
  rw [hrestrict t, hrestrict t', (view_eq_iff.mp h).1]

end Operations

end Confinement

end FileTree

end Engramia.Library
