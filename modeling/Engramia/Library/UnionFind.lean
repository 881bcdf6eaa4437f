import Mathlib.Order.Lattice.Nat

/-!
Union-find over a finite type, by rank and with path halving. A forest carries the proof that
ranks rise along its parents, from which every climb ends. Halving a path keeps all the roots,
so what a forest means is the equivalence of having the same root, and the unions of some pairs
make it the least equivalence that holds of them.
-/
namespace Engramia.Library

universe u
variable {V : Type u}

/-- Parents and ranks, where the rank of a parent is above that of its child. -/
structure Forest (V : Type u) where
  parent : V → V
  rank : V → ℕ
  climbs : ∀ x, parent x ≠ x → rank x < rank (parent x)

namespace Forest

def singletons : Forest V where
  parent x := x
  rank _ := 0
  climbs _ h := absurd rfl h

/-- How far below the highest rank an element is. -/
def depth [Fintype V] (f : Forest V) (x : V) : ℕ := Finset.univ.sup f.rank - f.rank x

theorem depth_lt [Fintype V] {f : Forest V} {x y : V} (h : f.rank x < f.rank y) :
    f.depth y < f.depth x := by
  have hy : f.rank y ≤ Finset.univ.sup f.rank := Finset.le_sup (Finset.mem_univ y)
  rw [depth, depth]
  omega

theorem climb_induction [Fintype V] {f : Forest V} {P : V → Prop}
    (h : ∀ x, (f.parent x ≠ x → P (f.parent x)) → P x) (x : V) : P x := by
  induction hd : f.depth x using Nat.strong_induction_on generalizing x with
  | _ d ih =>
      apply h
      intro hx
      exact ih _ (hd ▸ depth_lt (f.climbs x hx)) _ rfl

def root [Fintype V] [DecidableEq V] (f : Forest V) (x : V) : V :=
  if f.parent x = x then x else root f (f.parent x)
termination_by f.depth x
decreasing_by exact depth_lt (f.climbs x ‹_›)

section Roots
variable [Fintype V] [DecidableEq V] {f : Forest V} {x y : V}

/-- Two elements of one tree. -/
def Same (f : Forest V) (x y : V) : Prop := f.root x = f.root y

theorem root_eq_self (h : f.parent x = x) : f.root x = x := by
  rw [root, if_pos h]

theorem root_parent (x : V) : f.root (f.parent x) = f.root x := by
  by_cases h : f.parent x = x
  · rw [h]
  · rw [root.eq_def f x, if_neg h]

theorem parent_root (x : V) : f.parent (f.root x) = f.root x := by
  induction x using climb_induction (f := f) with
  | h x ih =>
      by_cases h : f.parent x = x
      · rw [root_eq_self h, h]
      · rw [← root_parent x]
        exact ih h

/-- A forest whose parents stay in the trees of another one, and that has no root more, has the
same roots. -/
theorem root_eq_root {g : Forest V} (hparent : ∀ y, f.root (g.parent y) = f.root y)
    (hroots : ∀ y, g.parent y = y → f.parent y = y) (x : V) : g.root x = f.root x := by
  induction x using climb_induction (f := g) with
  | h x ih =>
      by_cases h : g.parent x = x
      · rw [root_eq_self h, root_eq_self (hroots x h)]
      · rw [← root_parent x, ih h, hparent]

end Roots

section Find
variable [DecidableEq V] {f : Forest V} {x y z : V}

theorem rank_le_parent (f : Forest V) (x : V) : f.rank x ≤ f.rank (f.parent x) := by
  by_cases h : f.parent x = x
  · rw [h]
  · exact (f.climbs x h).le

theorem rank_lt_grandparent (h : f.parent x ≠ x) : f.rank x < f.rank (f.parent (f.parent x)) :=
  (f.climbs x h).trans_le (f.rank_le_parent _)

/-- The parent of `x` becomes its grandparent. -/
def halve (f : Forest V) (x : V) : Forest V where
  parent := Function.update f.parent x (f.parent (f.parent x))
  rank := f.rank
  climbs y h := by
    by_cases hy : y = x
    · subst hy
      rw [Function.update_self] at h ⊢
      apply rank_lt_grandparent
      intro hroot
      exact h (by rw [hroot, hroot])
    · rw [Function.update_of_ne hy] at h ⊢
      exact f.climbs y h

theorem halve_parent_self (f : Forest V) (x : V) :
    (f.halve x).parent x = f.parent (f.parent x) :=
  Function.update_self ..

theorem halve_parent_of_ne (f : Forest V) (h : y ≠ x) : (f.halve x).parent y = f.parent y :=
  Function.update_of_ne h ..

theorem root_halve [Fintype V] (f : Forest V) (x z : V) : (f.halve x).root z = f.root z := by
  apply root_eq_root
  · intro y
    by_cases hy : y = x
    · rw [hy, halve_parent_self, root_parent, root_parent]
    · rw [halve_parent_of_ne f hy, root_parent]
  · intro y h
    by_cases hy : y = x
    · subst hy
      rw [halve_parent_self] at h
      by_contra hroot
      have hrank := rank_lt_grandparent hroot
      rw [h] at hrank
      exact lt_irrefl _ hrank
    · rw [halve_parent_of_ne f hy] at h
      exact h

/-- Halves the path from `x` to its root. -/
def find [Fintype V] (f : Forest V) (x : V) : Forest V × V :=
  if f.parent x = x then (f, x)
  else find (f.halve x) ((f.halve x).parent x)
termination_by f.depth x
decreasing_by
  rw [halve_parent_self]
  exact depth_lt (f := f) (rank_lt_grandparent ‹_›)

variable [Fintype V]

theorem find_spec (f : Forest V) (x : V) :
    (f.find x).2 = f.root x ∧ ∀ z, (f.find x).1.root z = f.root z := by
  induction f, x using find.induct with
  | case1 f x h =>
      rw [find, if_pos h, root_eq_self h]
      exact ⟨rfl, fun _ => rfl⟩
  | case2 f x h ih =>
      rw [find, if_neg h]
      constructor
      · rw [ih.1, root_parent, root_halve]
      · intro z
        rw [ih.2, root_halve]

@[simp] theorem find_snd (f : Forest V) (x : V) : (f.find x).2 = f.root x :=
  (find_spec f x).1

@[simp] theorem root_find (f : Forest V) (x z : V) : (f.find x).1.root z = f.root z :=
  (find_spec f x).2 z

end Find

section Union
variable [DecidableEq V] {f : Forest V} {x y u v child top : V}

/-- A root of no higher rank goes below another one, whose rank rises on a tie. -/
def attach (f : Forest V) (child top : V) (htop : f.parent top = top) (hne : child ≠ top)
    (hrank : f.rank child ≤ f.rank top) : Forest V where
  parent := Function.update f.parent child top
  rank := if f.rank top = f.rank child then Function.update f.rank top (f.rank top + 1) else f.rank
  climbs z h := by
    have hrise : ∀ w, f.rank w ≤ (if f.rank top = f.rank child then
        Function.update f.rank top (f.rank top + 1) else f.rank) w := by
      intro w
      split
      · by_cases hw : w = top
        · rw [hw, Function.update_self]
          omega
        · rw [Function.update_of_ne hw]
      · exact le_refl _
    have hkeep : ∀ w, w ≠ top → (if f.rank top = f.rank child then
        Function.update f.rank top (f.rank top + 1) else f.rank) w = f.rank w := by
      intro w hw
      split
      · rw [Function.update_of_ne hw]
      · rfl
    by_cases hz : z = child
    · subst hz
      rw [Function.update_self, hkeep z hne]
      split
      · rw [Function.update_self]
        omega
      · omega
    · rw [Function.update_of_ne hz] at h ⊢
      have hztop : z ≠ top := by
        intro heq
        exact h (heq ▸ htop)
      rw [hkeep z hztop]
      exact (f.climbs z h).trans_le (hrise _)

variable [Fintype V]

theorem root_attach {htop : f.parent top = top} {hne : child ≠ top}
    {hrank : f.rank child ≤ f.rank top} (hchild : f.parent child = child) (z : V) :
    (f.attach child top htop hne hrank).root z = if f.root z = child then top else f.root z := by
  have hself : (f.attach child top htop hne hrank).parent child = top := Function.update_self ..
  have hother : ∀ w, w ≠ child →
      (f.attach child top htop hne hrank).parent w = f.parent w := by
    intro w hw
    exact Function.update_of_ne hw ..
  have hroot : (f.attach child top htop hne hrank).root top = top :=
    root_eq_self ((hother top hne.symm).trans htop)
  induction z using climb_induction (f := f) with
  | h z ih =>
      by_cases hz : z = child
      · rw [hz, root_eq_self hchild, if_pos rfl, ← root_parent, hself, hroot]
      · by_cases hfix : f.parent z = z
        · rw [root_eq_self hfix, if_neg hz, root_eq_self ((hother z hz).trans hfix)]
        · rw [← root_parent, hother z hz, ih hfix, root_parent]

/-- The trees of `x` and `y` become one. -/
def union (f : Forest V) (x y : V) : Forest V :=
  let first := f.find x
  let second := first.1.find y
  if hne : first.2 = second.2 then second.1
  else
    have hx : second.1.parent first.2 = first.2 := by
      simp only [second, first, find_snd]
      rw [← root_find f x x, ← root_find (f.find x).1 y x]
      exact parent_root x
    have hy : second.1.parent second.2 = second.2 := by
      simp only [second, find_snd]
      rw [← root_find first.1 y y]
      exact parent_root y
    if hrank : second.1.rank first.2 < second.1.rank second.2 then
      second.1.attach first.2 second.2 hy hne hrank.le
    else
      second.1.attach second.2 first.2 hx (Ne.symm hne) (not_lt.mp hrank)

theorem root_union (f : Forest V) (x y : V) :
    ∃ r, (r = f.root x ∨ r = f.root y) ∧
      ∀ z, (f.union x y).root z =
        if f.root z = f.root x ∨ f.root z = f.root y then r else f.root z := by
  have hx : ((f.find x).1.find y).1.parent (f.root x) = f.root x := by
    rw [← root_find f x x, ← root_find (f.find x).1 y x]
    exact parent_root x
  have hy : ((f.find x).1.find y).1.parent (f.root y) = f.root y := by
    rw [← root_find f x y, ← root_find (f.find x).1 y y]
    exact parent_root y
  simp only [union, find_snd, root_find]
  split
  next heq =>
    refine ⟨f.root x, Or.inl rfl, ?_⟩
    intro z
    rw [root_find, root_find]
    by_cases hz : f.root z = f.root x
    · rw [if_pos (Or.inl hz), hz]
    · rw [if_neg (not_or.mpr ⟨hz, heq ▸ hz⟩)]
  next hne =>
    split
    next =>
      refine ⟨f.root y, Or.inr rfl, ?_⟩
      intro z
      rw [root_attach hx, root_find, root_find]
      by_cases hz : f.root z = f.root x
      · rw [if_pos hz, if_pos (Or.inl hz)]
      · by_cases hz' : f.root z = f.root y
        · rw [if_neg hz, if_pos (Or.inr hz'), hz']
        · rw [if_neg hz, if_neg (not_or.mpr ⟨hz, hz'⟩)]
    next =>
      refine ⟨f.root x, Or.inl rfl, ?_⟩
      intro z
      rw [root_attach hy, root_find, root_find]
      by_cases hz : f.root z = f.root y
      · rw [if_pos hz, if_pos (Or.inr hz)]
      · by_cases hz' : f.root z = f.root x
        · rw [if_neg hz, if_pos (Or.inl hz'), hz']
        · rw [if_neg hz, if_neg (not_or.mpr ⟨hz', hz⟩)]

theorem same_union : (f.union x y).Same u v ↔
    f.Same u v ∨ (f.Same u x ∧ f.Same v y) ∨ (f.Same u y ∧ f.Same v x) := by
  obtain ⟨r, hr, hroot⟩ := root_union f x y
  simp only [Same, hroot]
  grind

end Union

section UnionAll
variable [Fintype V] [DecidableEq V] {u v : V}

def unionAll (f : Forest V) (pairs : List (V × V)) : Forest V :=
  pairs.foldl (fun f p => f.union p.1 p.2) f

theorem same_unionAll (pairs : List (V × V)) :
    (singletons.unionAll pairs).Same u v ↔ Relation.EqvGen (fun x y => (x, y) ∈ pairs) u v := by
  induction pairs using List.reverseRecOn generalizing u v with
  | nil =>
      have hroot : ∀ x : V, (singletons.unionAll ([] : List (V × V))).root x = x := by
        intro x
        exact root_eq_self rfl
      rw [Same, hroot, hroot]
      constructor
      · intro h
        exact h ▸ Relation.EqvGen.refl u
      · intro h
        induction h with
        | rel _ _ h => exact absurd h List.not_mem_nil
        | refl _ => rfl
        | symm _ _ _ ih => exact ih.symm
        | trans _ _ _ _ _ ih ih' => exact ih.trans ih'
  | append_singleton pairs p ih =>
      rw [unionAll, List.foldl_append, List.foldl_cons, List.foldl_nil, ← unionAll]
      constructor
      · have hmono : ∀ {a b : V}, (singletons.unionAll pairs).Same a b →
            Relation.EqvGen (fun x y => (x, y) ∈ pairs ++ [p]) a b := by
          intro a b h
          exact (ih.mp h).mono fun _ _ hmem => List.mem_append_left _ hmem
        have hp : Relation.EqvGen (fun x y => (x, y) ∈ pairs ++ [p]) p.1 p.2 :=
          .rel _ _ (List.mem_append_right _ (List.mem_singleton_self p))
        intro h
        cases same_union.mp h with
        | inl hsame => exact hmono hsame
        | inr hacross =>
            cases hacross with
            | inl hacross =>
                exact ((hmono hacross.1).trans _ _ _ hp).trans _ _ _ (hmono (Eq.symm hacross.2))
            | inr hacross =>
                exact ((hmono hacross.1).trans _ _ _ (hp.symm _ _)).trans _ _ _
                  (hmono (Eq.symm hacross.2))
      · intro h
        induction h with
        | rel a b hmem =>
            cases List.mem_append.mp hmem with
            | inl hmem => exact same_union.mpr (Or.inl (ih.mpr (.rel _ _ hmem)))
            | inr hmem =>
                have heq := List.mem_singleton.mp hmem
                subst heq
                exact same_union.mpr (Or.inr (Or.inl ⟨rfl, rfl⟩))
        | refl _ => rfl
        | symm _ _ _ ih => exact ih.symm
        | trans _ _ _ _ _ ih ih' => exact ih.trans ih'

end UnionAll

end Forest

end Engramia.Library
