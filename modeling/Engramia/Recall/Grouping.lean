import Engramia.Library.OrderedDict
import Engramia.Library.UnionFind
import Engramia.Patterns.Classification
import Mathlib.Combinatorics.SimpleGraph.Connectivity.Connected
import Mathlib.Data.List.Sort
import Mathlib.Logic.Equiv.Fin.Basic
import Mathlib.SetTheory.Cardinal.NatCard

/-!
Matches and their deduplication. Two matches are joined when the words of their tasks overlap in
more than seven of ten, which is not transitive, and the groups of a list are the connected
components. Of each component the match with the best success score stays, the first of several,
and what stays keeps its order.

The index of a match in the list stands for the match. The trees of the union-find have the
components as their elements, whatever the order in which the pairs are joined.
-/
namespace Engramia.Recall
open Engramia.Library Engramia.Storage Engramia.Patterns

inductive ReuseTier where
  | duplicate
  | adapt
  | fresh
deriving DecidableEq

def similarityDuplicate : ℚ := 92 / 100
def similarityAdapt : ℚ := 70 / 100

/-- `reuse_tier` -/
def reuseTier (similarity : ℚ) : ReuseTier :=
  if similarityDuplicate ≤ similarity then .duplicate
  else if similarityAdapt ≤ similarity then .adapt
  else .fresh

/-- A match, with the bounds that its model demands. -/
structure Match where
  pattern : PatternDoc
  similarity : ℚ
  reuseTier : ReuseTier
  patternKey : Text
  effectiveScore : Option ℚ
  similarity_bounds : 0 ≤ similarity ∧ similarity ≤ 1
  effective_bounds : ∀ e ∈ effectiveScore, 0 ≤ e ∧ e ≤ 1

def jaccardDedupThreshold : ℚ := 7 / 10

section Graph
variable (T : TextMethods)

def SameTask (a b : Text) : Prop := jaccardDedupThreshold < jaccard T a b

theorem sameTask_iff {a b : Text} : SameTask T a b ↔
    7 * (words T a ∪ words T b).card < 10 * (words T a ∩ words T b).card := by
  rw [SameTask, jaccardDedupThreshold, jaccard]
  by_cases h : words T a = ∅ ∨ words T b = ∅
  · have hinter : words T a ∩ words T b = ∅ := by
      cases h with
      | inl ha => rw [ha, Finset.empty_inter]
      | inr hb => rw [hb, Finset.inter_empty]
    simp only [if_pos h, hinter, Finset.card_empty]
    norm_num
  · have hpos : (0 : ℚ) < (words T a ∪ words T b).card := by
      rw [Nat.cast_pos, Finset.card_pos]
      exact (Finset.nonempty_iff_ne_empty.mpr (not_or.mp h).1).mono Finset.subset_union_left
    simp only [if_neg h]
    rw [lt_div_iff₀ hpos, ← Nat.cast_lt (α := ℚ)]
    push_cast
    constructor
    · intro h
      linarith
    · intro h
      linarith

instance (a b : Text) : Decidable (SameTask T a b) :=
  decidable_of_iff _ (sameTask_iff T).symm

/-- Things with tasks, where those of the same task are neighbours. -/
def taskGraph {V : Type} (task : V → Text) : SimpleGraph V where
  Adj x y := x ≠ y ∧ SameTask T (task x) (task y)
  symm := ⟨fun _ _ h => ⟨h.1.symm, by rw [SameTask, jaccard_comm]; exact h.2⟩⟩
  loopless := ⟨fun _ h => h.1 rfl⟩

/-- The groups that tasks form. -/
noncomputable def groupCount (tasks : List Text) : ℕ :=
  Nat.card (taskGraph T tasks.get).ConnectedComponent

end Graph

section Deduplication
variable (T : TextMethods) (ms : List Match)

def taskOf (i : Fin ms.length) : Text := (ms.get i).pattern.task

def scoreOf (i : Fin ms.length) : ℚ := (ms.get i).pattern.successScore

/-- The pairs of the two loops over the indices. -/
def indexPairs (n : ℕ) : List (Fin n × Fin n) :=
  (List.finRange n).flatMap fun i => ((List.finRange n).filter (i < ·)).map fun j => (i, j)

/-- The union-find after both loops. -/
def grouping : Forest (Fin ms.length) :=
  Forest.singletons.unionAll
    ((indexPairs ms.length).filter fun p => SameTask T (taskOf ms p.1) (taskOf ms p.2))

/-- One turn of the loop that looks for the best match of each group. -/
def keepBest (s : Forest (Fin ms.length) × OrderedDict (Fin ms.length) (Fin ms.length))
    (i : Fin ms.length) :
    Forest (Fin ms.length) × OrderedDict (Fin ms.length) (Fin ms.length) :=
  let found := s.1.find i
  match s.2.get? found.2 with
  | none => (found.1, s.2.set found.2 i)
  | some kept =>
      if scoreOf ms kept < scoreOf ms i then (found.1, s.2.set found.2 i) else (found.1, s.2)

def bestByRoot : OrderedDict (Fin ms.length) (Fin ms.length) :=
  ((List.finRange ms.length).foldl (keepBest ms) (grouping T ms, .empty)).2

def keptIndices : List (Fin ms.length) :=
  ((bestByRoot T ms).entries.map Prod.snd).insertionSort (· ≤ ·)

/-- `_deduplicate_matches` -/
def deduplicateMatches : List Match :=
  (keptIndices T ms).map ms.get

/-- A match that goes before another one of its group. -/
def Beats (i j : Fin ms.length) : Prop :=
  scoreOf ms j < scoreOf ms i ∨ scoreOf ms j = scoreOf ms i ∧ i ≤ j

end Deduplication

section Groups
variable {T : TextMethods} {ms : List Match} {i j : Fin ms.length}

theorem mem_indexPairs {n : ℕ} {i j : Fin n} : (i, j) ∈ indexPairs n ↔ i < j := by
  simp [indexPairs]

theorem eqvGen_of_reachable {V : Type} {G : SimpleGraph V} {r : V → V → Prop}
    (h : ∀ x y, G.Adj x y → r x y ∨ r y x) {x y : V} (hxy : G.Reachable x y) :
    Relation.EqvGen r x y := by
  obtain ⟨walk⟩ := hxy
  induction walk with
  | nil => exact .refl _
  | cons hadj _ ih =>
      cases h _ _ hadj with
      | inl hr => exact .trans _ _ _ (.rel _ _ hr) ih
      | inr hr => exact .trans _ _ _ (.symm _ _ (.rel _ _ hr)) ih

theorem reachable_of_eqvGen {V : Type} {G : SimpleGraph V} {r : V → V → Prop}
    (h : ∀ x y, r x y → G.Adj x y) {x y : V} (hxy : Relation.EqvGen r x y) :
    G.Reachable x y := by
  induction hxy with
  | rel x y hr => exact (h x y hr).reachable
  | refl x => exact .refl x
  | symm _ _ _ ih => exact ih.symm
  | trans _ _ _ _ _ ih ih' => exact ih.trans ih'

theorem grouping_same :
    (grouping T ms).Same i j ↔ (taskGraph T (taskOf ms)).Reachable i j := by
  rw [grouping, Forest.same_unionAll]
  constructor
  · apply reachable_of_eqvGen
    intro x y h
    simp only [List.mem_filter, mem_indexPairs, decide_eq_true_eq] at h
    exact ⟨h.1.ne, h.2⟩
  · apply eqvGen_of_reachable
    intro x y h
    simp only [List.mem_filter, mem_indexPairs, decide_eq_true_eq]
    cases lt_or_gt_of_ne h.1 with
    | inl hlt => exact Or.inl ⟨hlt, h.2⟩
    | inr hgt => exact Or.inr ⟨hgt, h.symm.2⟩

theorem beats_refl (i : Fin ms.length) : Beats ms i i :=
  Or.inr ⟨rfl, le_refl i⟩

theorem beats_antisymm (h : Beats ms i j) (h' : Beats ms j i) : i = j := by
  unfold Beats at h h'
  grind

theorem beats_trans {k : Fin ms.length} (h : Beats ms i j) (h' : Beats ms j k) : Beats ms i k := by
  unfold Beats at *
  grind

/-- What the loop has found among the indices that it has seen: for each root the index that
beats the others below it. -/
structure BestSoFar (f : Forest (Fin ms.length)) (seen : List (Fin ms.length))
    (s : Forest (Fin ms.length) × OrderedDict (Fin ms.length) (Fin ms.length)) : Prop where
  roots : ∀ i, s.1.root i = f.root i
  best : ∀ r i, s.2.get? r = some i → i ∈ seen ∧ f.root i = r ∧
    ∀ j ∈ seen, f.root j = r → Beats ms i j
  unseen : ∀ r, s.2.get? r = none → ∀ j ∈ seen, f.root j ≠ r

theorem BestSoFar.step {f : Forest (Fin ms.length)} {seen : List (Fin ms.length)}
    {s : Forest (Fin ms.length) × OrderedDict (Fin ms.length) (Fin ms.length)}
    (h : BestSoFar f seen s) (hi : ∀ j ∈ seen, j < i) :
    BestSoFar f (seen ++ [i]) (keepBest ms s i) := by
  have hroots : ∀ j, (s.1.find i).1.root j = f.root j := by
    intro j
    rw [Forest.root_find, h.roots]
  -- the index of this turn takes the place of whatever its group had
  have htakes : (∀ j ∈ seen, f.root j = f.root i → Beats ms i j) →
      BestSoFar f (seen ++ [i]) ((s.1.find i).1, s.2.set (f.root i) i) := by
    intro hbeats
    refine ⟨hroots, ?_, ?_⟩
    · intro r k hget
      rw [OrderedDict.get?_set] at hget
      by_cases hr : r = f.root i
      · rw [if_pos hr] at hget
        cases hget
        refine ⟨by simp, hr.symm, ?_⟩
        intro j hj hroot
        cases List.mem_append.mp hj with
        | inl hj => exact hbeats j hj (hroot.trans hr)
        | inr hj => exact List.mem_singleton.mp hj ▸ beats_refl _
      · rw [if_neg hr] at hget
        obtain ⟨hmem, hroot, hbest⟩ := h.best r k hget
        refine ⟨List.mem_append_left _ hmem, hroot, ?_⟩
        intro j hj hjroot
        cases List.mem_append.mp hj with
        | inl hj => exact hbest j hj hjroot
        | inr hj => exact absurd (List.mem_singleton.mp hj ▸ hjroot.symm) hr
    · intro r hget j hj
      rw [OrderedDict.get?_set] at hget
      by_cases hr : r = f.root i
      · rw [if_pos hr] at hget
        cases hget
      · rw [if_neg hr] at hget
        cases List.mem_append.mp hj with
        | inl hj => exact h.unseen r hget j hj
        | inr hj => exact List.mem_singleton.mp hj ▸ Ne.symm hr
  rw [keepBest, Forest.find_snd, h.roots]
  cases hget : s.2.get? (f.root i) with
  | none =>
      apply htakes
      intro j hj hroot
      exact absurd hroot (h.unseen _ hget j hj)
  | some kept =>
      obtain ⟨hmem, hroot, hbest⟩ := h.best _ _ hget
      by_cases hscore : scoreOf ms kept < scoreOf ms i
      · simp only [if_pos hscore]
        apply htakes
        intro j hj hjroot
        exact beats_trans (Or.inl hscore) (hbest j hj hjroot)
      · simp only [if_neg hscore]
        have hkept : Beats ms kept i := by
          cases (not_lt.mp hscore).lt_or_eq with
          | inl hlt => exact Or.inl hlt
          | inr heq => exact Or.inr ⟨heq, (hi kept hmem).le⟩
        refine ⟨hroots, ?_, ?_⟩
        · intro r k hk
          obtain ⟨hkmem, hkroot, hkbest⟩ := h.best r k hk
          refine ⟨List.mem_append_left _ hkmem, hkroot, ?_⟩
          intro j hj hjroot
          cases List.mem_append.mp hj with
          | inl hj => exact hkbest j hj hjroot
          | inr hj =>
              rw [List.mem_singleton.mp hj] at hjroot ⊢
              subst hjroot
              rw [hget] at hk
              cases hk
              exact hkept
        · intro r hnone j hj
          cases List.mem_append.mp hj with
          | inl hj => exact h.unseen r hnone j hj
          | inr hj =>
              rw [List.mem_singleton.mp hj]
              intro hr
              rw [← hr, hget] at hnone
              cases hnone

theorem bestSoFar_foldl (f : Forest (Fin ms.length)) (todo seen : List (Fin ms.length))
    (s : Forest (Fin ms.length) × OrderedDict (Fin ms.length) (Fin ms.length))
    (h : BestSoFar f seen s) (hsorted : (seen ++ todo).Pairwise (· < ·)) :
    BestSoFar f (seen ++ todo) (todo.foldl (keepBest ms) s) := by
  induction todo generalizing seen s with
  | nil =>
      rw [List.append_nil]
      exact h
  | cons i todo ih =>
      have hi : ∀ j ∈ seen, j < i := by
        intro j hj
        exact (List.pairwise_append.mp hsorted).2.2 j hj i List.mem_cons_self
      have happend : seen ++ i :: todo = (seen ++ [i]) ++ todo := by simp
      rw [happend] at hsorted ⊢
      exact ih _ _ (h.step hi) hsorted

variable (T ms) in
theorem bestByRoot_spec : BestSoFar (grouping T ms) (List.finRange ms.length)
    ((List.finRange ms.length).foldl (keepBest ms) (grouping T ms, .empty)) := by
  apply bestSoFar_foldl (grouping T ms) (List.finRange ms.length) []
  · refine ⟨fun _ => rfl, ?_, ?_⟩
    · intro r i hget
      cases hget
    · intro r _ j hj
      exact absurd hj List.not_mem_nil
  · exact List.pairwise_lt_finRange _

theorem mem_keptIndices :
    i ∈ keptIndices T ms ↔ ∀ j, (taskGraph T (taskOf ms)).Reachable i j → Beats ms i j := by
  have hspec := bestByRoot_spec T ms
  have hget (r k : Fin ms.length) : (r, k) ∈ (bestByRoot T ms).entries ↔
      (bestByRoot T ms).get? r = some k := OrderedDict.get?_eq_some.symm
  rw [keptIndices, List.mem_insertionSort, List.mem_map]
  constructor
  · intro h j hj
    obtain ⟨x, hx, rfl⟩ := h
    obtain ⟨_, hroot, hbest⟩ := hspec.best x.1 x.2 ((hget _ _).mp hx)
    exact hbest j (List.mem_finRange j) ((grouping_same.mpr hj).symm.trans hroot)
  · intro h
    cases hbest : (bestByRoot T ms).get? ((grouping T ms).root i) with
    | none => exact absurd rfl (hspec.unseen _ hbest i (List.mem_finRange i))
    | some k =>
        obtain ⟨_, hroot, hbeats⟩ := hspec.best _ _ hbest
        have hik := h k (grouping_same.mp hroot.symm)
        have hki := hbeats i (List.mem_finRange i) rfl
        exact ⟨_, (hget _ _).mpr hbest, beats_antisymm hki hik⟩

theorem keptIndices_sorted : (keptIndices T ms).Pairwise (· < ·) := by
  have hspec := bestByRoot_spec T ms
  have hroot : ∀ x ∈ (bestByRoot T ms).entries, (grouping T ms).root x.2 = x.1 := by
    intro x hx
    exact (hspec.best x.1 x.2 (OrderedDict.get?_eq_some.mpr hx)).2.1
  have hnodup : ((bestByRoot T ms).entries.map Prod.snd).Nodup := by
    apply List.Nodup.of_map (grouping T ms).root
    rw [List.map_map, List.map_congr_left (f := (grouping T ms).root ∘ Prod.snd) hroot]
    exact (bestByRoot T ms).unique
  have hle := List.pairwise_insertionSort (fun i j : Fin ms.length => i ≤ j)
    ((bestByRoot T ms).entries.map Prod.snd)
  have hne := (List.perm_insertionSort (fun i j : Fin ms.length => i ≤ j)
    ((bestByRoot T ms).entries.map Prod.snd)).nodup_iff.mpr hnodup
  exact (hle.and hne).imp fun h => lt_of_le_of_ne h.1 h.2

theorem keptIndices_nodup : (keptIndices T ms).Nodup :=
  keptIndices_sorted.imp ne_of_lt

theorem exists_kept (C : (taskGraph T (taskOf ms)).ConnectedComponent) :
    ∃ i, i ∈ keptIndices T ms ∧ (taskGraph T (taskOf ms)).connectedComponentMk i = C := by
  induction C using SimpleGraph.ConnectedComponent.ind with
  | h j =>
      have hspec := bestByRoot_spec T ms
      cases hbest : (bestByRoot T ms).get? ((grouping T ms).root j) with
      | none => exact absurd rfl (hspec.unseen _ hbest j (List.mem_finRange j))
      | some k =>
          obtain ⟨_, hroot, _⟩ := hspec.best _ _ hbest
          refine ⟨k, ?_, SimpleGraph.ConnectedComponent.sound (grouping_same.mp hroot)⟩
          rw [keptIndices, List.mem_insertionSort, List.mem_map]
          exact ⟨_, OrderedDict.get?_eq_some.mp hbest, rfl⟩

theorem kept_unique (hi : i ∈ keptIndices T ms) (hj : j ∈ keptIndices T ms)
    (h : (taskGraph T (taskOf ms)).Reachable i j) : i = j :=
  beats_antisymm (mem_keptIndices.mp hi j h) (mem_keptIndices.mp hj i h.symm)

theorem deduplicateMatches_sublist : (deduplicateMatches T ms).Sublist ms :=
  List.map_getElem_sublist keptIndices_sorted

theorem deduplicateMatches_eq_self (h : ∀ i j, ¬ (taskGraph T (taskOf ms)).Adj i j) :
    deduplicateMatches T ms = ms := by
  have hall : ∀ i, i ∈ keptIndices T ms := by
    intro i
    rw [mem_keptIndices]
    intro j hj
    obtain ⟨walk⟩ := hj
    cases walk with
    | nil => exact beats_refl i
    | cons hadj _ => exact absurd hadj (h _ _)
  have hlength : (keptIndices T ms).length = ms.length := by
    have hperm := (List.perm_ext_iff_of_nodup keptIndices_nodup
      (List.nodup_finRange ms.length)).mpr fun i => ⟨fun _ => List.mem_finRange i, fun _ => hall i⟩
    rw [hperm.length_eq, List.length_finRange]
  apply deduplicateMatches_sublist.eq_of_length
  rw [deduplicateMatches, List.length_map, hlength]

theorem not_adj_deduplicateMatches (i j : Fin (deduplicateMatches T ms).length) :
    ¬ (taskGraph T (taskOf (deduplicateMatches T ms))).Adj i j := by
  intro hadj
  have hlen : (deduplicateMatches T ms).length = (keptIndices T ms).length := List.length_map ..
  have hget : ∀ k : Fin (deduplicateMatches T ms).length,
      (deduplicateMatches T ms).get k = ms.get ((keptIndices T ms).get (k.cast hlen)) := by
    intro k
    exact List.getElem_map ..
  have htask : SameTask T (taskOf ms ((keptIndices T ms).get (i.cast hlen)))
      (taskOf ms ((keptIndices T ms).get (j.cast hlen))) := by
    rw [taskOf, taskOf, ← hget, ← hget]
    exact hadj.2
  have hinj : (keptIndices T ms).get (i.cast hlen) ≠ (keptIndices T ms).get (j.cast hlen) := by
    intro heq
    have hcast := keptIndices_nodup.injective_get heq
    exact hadj.1 (Fin.cast_injective hlen hcast)
  have hsame : (taskGraph T (taskOf ms)).Reachable ((keptIndices T ms).get (i.cast hlen))
      ((keptIndices T ms).get (j.cast hlen)) :=
    SimpleGraph.Adj.reachable ⟨hinj, htask⟩
  exact hinj (kept_unique (List.get_mem _ _) (List.get_mem _ _) hsame)

/-- Positions with the same tasks have the same groups. -/
def taskGraphIso {V W : Type} {task : V → Text} {task' : W → Text} (e : V ≃ W)
    (h : ∀ x, task' (e x) = task x) : taskGraph T task ≃g taskGraph T task' where
  toEquiv := e
  map_rel_iff' := by
    intro x y
    change e x ≠ e y ∧ SameTask T (task' (e x)) (task' (e y)) ↔ x ≠ y ∧ SameTask T (task x) (task y)
    rw [h, h, e.injective.ne_iff]

theorem groupCount_congr {V : Type} {tasks : List Text} {task : V → Text}
    (e : Fin tasks.length ≃ V) (h : ∀ i, task (e i) = tasks.get i) :
    groupCount T tasks = Nat.card (taskGraph T task).ConnectedComponent :=
  Nat.card_congr (taskGraphIso e h).connectedComponentEquiv

theorem exists_equiv_of_perm {α : Type} {l l' : List α} (h : l.Perm l') :
    ∃ e : Fin l.length ≃ Fin l'.length, ∀ i, l'.get (e i) = l.get i := by
  induction h with
  | nil => exact ⟨Equiv.refl _, fun _ => rfl⟩
  | cons x _ ih =>
      obtain ⟨e, he⟩ := ih
      refine ⟨(finSuccEquiv _).trans ((Equiv.optionCongr e).trans (finSuccEquiv _).symm), ?_⟩
      intro i
      cases i using Fin.cases with
      | zero => rfl
      | succ i => exact he i
  | swap x y l =>
      refine ⟨Equiv.swap 0 1, ?_⟩
      intro i
      cases i using Fin.cases with
      | zero => rfl
      | succ i =>
          cases i using Fin.cases with
          | zero => rfl
          | succ i =>
              rw [Equiv.swap_apply_of_ne_of_ne (Fin.succ_ne_zero _) (by simp [Fin.ext_iff])]
              rfl
  | trans _ _ ih ih' =>
      obtain ⟨e, he⟩ := ih
      obtain ⟨e', he'⟩ := ih'
      exact ⟨e.trans e', fun i => (he' _).trans (he i)⟩

theorem groupCount_perm {tasks tasks' : List Text} (h : tasks.Perm tasks') :
    groupCount T tasks = groupCount T tasks' := by
  obtain ⟨e, he⟩ := exists_equiv_of_perm h
  exact groupCount_congr e he

/-- There are no more groups than tasks, and as many where no two tasks are the same. -/
theorem groupCount_le_length (tasks : List Text) : groupCount T tasks ≤ tasks.length := by
  have hsurj : Function.Surjective (taskGraph T tasks.get).connectedComponentMk :=
    Quot.mk_surjective
  exact (Nat.card_le_card_of_surjective _ hsurj).trans (Nat.card_fin _).le

theorem one_lt_groupCount {a b : Text} {tasks : List Text}
    (h : ∀ c ∈ a :: tasks, ¬ SameTask T b c) : 1 < groupCount T (a :: tasks ++ [b]) := by
  have hlast : tasks.length + 1 < (a :: tasks ++ [b]).length := by simp
  have hget : (a :: tasks ++ [b]).get ⟨tasks.length + 1, hlast⟩ = b := by simp
  have halone : ∀ k, ¬ (taskGraph T (a :: tasks ++ [b]).get).Adj ⟨tasks.length + 1, hlast⟩ k := by
    intro k hadj
    have hsame := hadj.2
    rw [hget] at hsame
    have hk : (a :: tasks ++ [b]).get k ∈ a :: tasks := by
      have hlt : k.val < (a :: tasks).length := by
        have hkne : tasks.length + 1 ≠ k.val := fun heq => hadj.1 (Fin.ext heq)
        have hklt := k.isLt
        simp only [List.length_append, List.length_cons, List.length_nil] at hklt ⊢
        omega
      rw [List.get_eq_getElem, List.getElem_append_left hlt]
      exact List.getElem_mem hlt
    exact h _ hk hsame
  have hnontrivial : Nontrivial (taskGraph T (a :: tasks ++ [b]).get).ConnectedComponent := by
    refine ⟨(taskGraph T _).connectedComponentMk ⟨tasks.length + 1, hlast⟩,
      (taskGraph T _).connectedComponentMk ⟨0, by simp⟩, ?_⟩
    intro heq
    obtain ⟨walk⟩ := SimpleGraph.ConnectedComponent.exact heq
    cases walk with
    | cons hadj _ => exact halone _ hadj
  exact Finite.one_lt_card

theorem groupCount_eq_length_iff {tasks : List Text} :
    groupCount T tasks = tasks.length ↔ tasks.Pairwise fun a b => ¬ SameTask T a b := by
  have hsurj : Function.Surjective (taskGraph T tasks.get).connectedComponentMk :=
    Quot.mk_surjective
  rw [List.pairwise_iff_get]
  constructor
  · intro heq i j hij hsame
    have hle : Nat.card (Fin tasks.length) ≤ Nat.card (taskGraph T tasks.get).ConnectedComponent :=
      (Nat.card_fin _).le.trans heq.ge
    have hinj := (hsurj.bijective_of_nat_card_le hle).injective
    have hadj : (taskGraph T tasks.get).Adj i j := ⟨hij.ne, hsame⟩
    exact hij.ne (hinj (SimpleGraph.ConnectedComponent.sound hadj.reachable))
  · intro hfresh
    have hnot : ∀ i j, ¬ (taskGraph T tasks.get).Adj i j := by
      intro i j hadj
      cases lt_or_gt_of_ne hadj.1 with
      | inl hlt => exact hfresh i j hlt hadj.2
      | inr hgt => exact hfresh j i hgt hadj.symm.2
    have hinj : Function.Injective (taskGraph T tasks.get).connectedComponentMk := by
      intro i j hij
      obtain ⟨walk⟩ := SimpleGraph.ConnectedComponent.exact hij
      cases walk with
      | nil => rfl
      | cons hadj _ => exact absurd hadj (hnot _ _)
    exact (Nat.card_congr (Equiv.ofBijective _ ⟨hinj, hsurj⟩)).symm.trans (Nat.card_fin _)

theorem length_deduplicateMatches :
    (deduplicateMatches T ms).length = groupCount T (ms.map fun m => m.pattern.task) := by
  have hbij : Function.Bijective fun k : Fin (keptIndices T ms).length =>
      (taskGraph T (taskOf ms)).connectedComponentMk ((keptIndices T ms).get k) := by
    constructor
    · intro k l hkl
      apply keptIndices_nodup.injective_get
      exact kept_unique (List.get_mem _ _) (List.get_mem _ _)
        (SimpleGraph.ConnectedComponent.exact hkl)
    · intro C
      obtain ⟨i, hi, hC⟩ := exists_kept C
      obtain ⟨k, hk⟩ := List.get_of_mem hi
      exact ⟨k, by simp only [hk, hC]⟩
  have hlen : (ms.map fun m => m.pattern.task).length = ms.length := List.length_map _
  calc (deduplicateMatches T ms).length
      = (keptIndices T ms).length := List.length_map _
    _ = Nat.card (Fin (keptIndices T ms).length) := (Nat.card_fin _).symm
    _ = Nat.card (taskGraph T (taskOf ms)).ConnectedComponent :=
        Nat.card_congr (Equiv.ofBijective _ hbij)
    _ = groupCount T (ms.map fun m => m.pattern.task) := by
        symm
        apply groupCount_congr (finCongr hlen)
        intro i
        rw [List.get_eq_getElem, List.getElem_map]
        rfl

theorem deduplicateMatches_components (T : TextMethods) (ms : List Match) :
    (∃ kept : List (Fin ms.length), kept.Pairwise (· < ·) ∧
      deduplicateMatches T ms = kept.map ms.get ∧
      (∀ C : (taskGraph T (taskOf ms)).ConnectedComponent,
        ∃! i, i ∈ kept ∧ (taskGraph T (taskOf ms)).connectedComponentMk i = C) ∧
      ∀ i ∈ kept, ∀ j, (taskGraph T (taskOf ms)).Reachable i j → Beats ms i j) ∧
    (∀ i j, (grouping T ms).Same i j ↔ (taskGraph T (taskOf ms)).Reachable i j) ∧
    (∀ (ms' : List Match) (e : Fin ms.length ≃ Fin ms'.length),
      (∀ i, ms'.get (e i) = ms.get i) →
        ∀ i j, (grouping T ms').Same (e i) (e j) ↔ (grouping T ms).Same i j) ∧
    deduplicateMatches T (deduplicateMatches T ms) = deduplicateMatches T ms := by
  refine ⟨⟨keptIndices T ms, keptIndices_sorted, rfl, ?_, ?_⟩, ?_, ?_, ?_⟩
  · intro C
    obtain ⟨i, hi, hC⟩ := exists_kept C
    refine ⟨i, ⟨hi, hC⟩, ?_⟩
    intro j hj
    exact kept_unique hj.1 hi (SimpleGraph.ConnectedComponent.exact (hj.2.trans hC.symm))
  · intro i hi
    exact mem_keptIndices.mp hi
  · intro i j
    exact grouping_same
  · intro ms' e he i j
    rw [grouping_same, grouping_same]
    have htask : ∀ k, taskOf ms' (e k) = taskOf ms k := by
      intro k
      rw [taskOf, taskOf, he]
    exact (taskGraphIso e htask).reachable_iff
  · exact deduplicateMatches_eq_self not_adj_deduplicateMatches

end Groups

end Engramia.Recall
