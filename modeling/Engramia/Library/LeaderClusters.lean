import Mathlib.Algebra.BigOperators.Group.List.Basic
import Mathlib.Data.List.Induction
import Mathlib.Data.List.Perm.Basic

/-!
Greedy clusters around leaders. Each element joins the first group whose leader it is near, and
founds a group where there is none. Nearness need not be transitive, so two elements of one
group may be far from each other, and an element may be near the leaders of several groups.
-/
namespace Engramia.Library

universe u v
variable {α : Type u}

structure LeaderGroup (α : Type u) where
  leader : α
  followers : List α

def LeaderGroup.members (g : LeaderGroup α) : List α :=
  g.leader :: g.followers

section Groups
variable {near : α → α → Prop} {xs : List α} {groups groups' : List (LeaderGroup α)}

/-- The groups hold each element once, the followers of a group are near its leader, and the
leaders are not near each other. -/
structure Clustered (near : α → α → Prop) (xs : List α) (groups : List (LeaderGroup α)) : Prop where
  members : (groups.flatMap LeaderGroup.members).Perm xs
  follow : ∀ g ∈ groups, ∀ x ∈ g.followers, near g.leader x
  apart : groups.Pairwise fun g h => ¬ near g.leader h.leader

/-- With a symmetric nearness the order of the groups does not matter. -/
theorem Clustered.perm (hsymm : ∀ a b, near a b → near b a) (hperm : groups'.Perm groups)
    (h : Clustered near xs groups) : Clustered near xs groups' where
  members := (hperm.flatMap_right LeaderGroup.members).trans h.members
  follow := fun g hg => h.follow g (hperm.mem_iff.mp hg)
  apart := (hperm.pairwise_iff fun hfar hnear => hfar (hsymm _ _ hnear)).mpr h.apart

theorem Clustered.sum_eq {M : Type v} [AddCommMonoid M] (f : α → M)
    (h : Clustered near xs groups) :
    (groups.map fun g => (g.members.map f).sum).sum = (xs.map f).sum := by
  rw [← (h.members.map f).sum_eq, List.map_flatMap, List.flatMap_def, List.sum_flatten,
    List.map_map]
  rfl

end Groups

section Scan
variable (near : α → α → Prop) [DecidableRel near]

def joinGroup (x : α) : List (LeaderGroup α) → List (LeaderGroup α)
  | [] => [⟨x, []⟩]
  | g :: groups =>
      if near g.leader x then { g with followers := g.followers ++ [x] } :: groups
      else g :: joinGroup x groups

/-- The groups after a scan of the elements in their order. -/
def leaderClusters (xs : List α) : List (LeaderGroup α) :=
  xs.foldl (fun groups x => joinGroup near x groups) []

variable {near} {x : α} {xs : List α} {groups : List (LeaderGroup α)}

theorem joinGroup_members (x : α) (groups : List (LeaderGroup α)) :
    ((joinGroup near x groups).flatMap LeaderGroup.members).Perm
      (x :: groups.flatMap LeaderGroup.members) := by
  induction groups with
  | nil => exact List.Perm.refl _
  | cons g groups ih =>
      rw [joinGroup]
      split
      case isTrue =>
          have hmoved : (g.members ++ [x]).Perm (x :: g.members) := List.perm_append_singleton _ _
          exact hmoved.append_right (groups.flatMap LeaderGroup.members)
      case isFalse =>
          have hrest := ih.append_left g.members
          exact hrest.trans List.perm_middle

theorem joinGroup_follow (h : ∀ g ∈ groups, ∀ y ∈ g.followers, near g.leader y) :
    ∀ g ∈ joinGroup near x groups, ∀ y ∈ g.followers, near g.leader y := by
  induction groups with
  | nil =>
      intro g hg y hy
      rw [List.mem_singleton.mp hg] at hy
      cases hy
  | cons g groups ih =>
      have hrest : ∀ g ∈ groups, ∀ y ∈ g.followers, near g.leader y :=
        fun g' hg' => h g' (List.mem_cons_of_mem _ hg')
      rw [joinGroup]
      split
      case isTrue hnear =>
          refine List.forall_mem_cons.mpr ⟨?_, hrest⟩
          intro y hy
          cases List.mem_append.mp hy with
          | inl hy => exact h g List.mem_cons_self y hy
          | inr hy => exact List.mem_singleton.mp hy ▸ hnear
      case isFalse =>
          exact List.forall_mem_cons.mpr ⟨h g List.mem_cons_self, ih hrest⟩

/-- Joining keeps the leaders, unless the element is near none of them and becomes the last. -/
theorem joinGroup_leaders (x : α) (groups : List (LeaderGroup α)) :
    (joinGroup near x groups).map LeaderGroup.leader = groups.map LeaderGroup.leader ∨
      (joinGroup near x groups).map LeaderGroup.leader = groups.map LeaderGroup.leader ++ [x] ∧
        ∀ g ∈ groups, ¬ near g.leader x := by
  induction groups with
  | nil => exact .inr ⟨rfl, fun _ hg => absurd hg List.not_mem_nil⟩
  | cons g groups ih =>
      rw [joinGroup]
      split
      case isTrue => exact .inl rfl
      case isFalse hfar =>
          cases ih with
          | inl hsame => exact .inl (congrArg (g.leader :: ·) hsame)
          | inr hfound =>
              exact .inr ⟨congrArg (g.leader :: ·) hfound.1,
                List.forall_mem_cons.mpr ⟨hfar, hfound.2⟩⟩

theorem joinGroup_apart (h : groups.Pairwise fun g h => ¬ near g.leader h.leader) :
    (joinGroup near x groups).Pairwise fun g h => ¬ near g.leader h.leader := by
  have hmap : ∀ groups : List (LeaderGroup α),
      (groups.map LeaderGroup.leader).Pairwise (fun a b => ¬ near a b) ↔
        groups.Pairwise fun g h => ¬ near g.leader h.leader :=
    fun _ => List.pairwise_map
  rw [← hmap] at h ⊢
  have hcases : (joinGroup near x groups).map LeaderGroup.leader = _ ∨ _ :=
    joinGroup_leaders x groups
  cases hcases with
  | inl hsame =>
      rw [hsame]
      exact h
  | inr hfound =>
      rw [hfound.1]
      refine List.pairwise_append.mpr ⟨h, List.pairwise_singleton _ _, ?_⟩
      intro a ha b hb
      obtain ⟨g, hg, rfl⟩ := List.mem_map.mp ha
      rw [List.mem_singleton.mp hb]
      exact hfound.2 g hg

theorem Clustered.joinGroup (h : Clustered near xs groups) :
    Clustered near (xs ++ [x]) (joinGroup near x groups) where
  members := (joinGroup_members x groups).trans
    ((h.members.cons x).trans (List.perm_append_singleton x xs).symm)
  follow := joinGroup_follow h.follow
  apart := joinGroup_apart h.apart

theorem leaderClusters_clustered (xs : List α) : Clustered near xs (leaderClusters near xs) := by
  induction xs using List.reverseRecOn with
  | nil =>
      exact ⟨List.Perm.refl _, fun _ hg => absurd hg List.not_mem_nil, List.Pairwise.nil⟩
  | append_singleton xs x ih =>
      rw [leaderClusters, List.foldl_append]
      exact ih.joinGroup

end Scan

end Engramia.Library
