import Engramia.Recall.Order
import Mathlib.Algebra.Order.Ring.Star
import Mathlib.Data.Rat.Floor
import Mathlib.Data.Rat.Star
import Mathlib.Tactic.NormNum

/-!
The plain path beside the weighed one. Both read the same candidates, and when all multipliers
are equal both keep the order of the search. The weighed path passes over a record that is no
pattern and clamps a negative similarity, where the plain path raises, and it rounds what the
plain path does not.
-/
namespace Engramia.Recall
open Engramia.Library Engramia.Storage Engramia.Patterns

/-- A recall without groups and recency, on either path. -/
def ungrouped (task : Text) (limit : ℕ) (evalWeighted : Bool) : RecallQuery where
  task := task
  limit := limit
  deduplicate := false
  evalWeighted := evalWeighted
  recencyWeight := 0
  recencyHalfLifeDays := 30

def EqualMultipliers (C : RecallContext) (s : RecallStore) (task : Text)
    (results : List (Text × ℚ)) : Prop :=
  ∃ factor, ∀ x ∈ results, multiplier C s task x.1 = factor

/-- The plain path answers, and as the weighed one does when the evaluations do not weigh. -/
def PlainAgrees (C : RecallContext) (s : RecallStore) (task : Text) (limit : ℕ)
    (results : List (Text × ℚ)) : Prop :=
  ∃ ms, RecallService.recall C s (ungrouped task limit false) = .ok ms ∧
    (EqualMultipliers C s task results →
      ∃ ms', RecallService.recall C s (ungrouped task limit true) = .ok ms' ∧
      ms.map Match.patternKey = ms'.map Match.patternKey ∧
      ms.map Match.similarity = ms'.map Match.similarity)

variable {C : RecallContext} {s : RecallStore} {task : Text} {limit : ℕ}
  {results : List (Text × ℚ)}

theorem multiplier_nonneg (C : RecallContext) (s : RecallStore) (task key : Text) :
    0 ≤ multiplier C s task key :=
  le_trans (by norm_num) (evalMultiplier_bounds s.evals_bounded).1

theorem recall_ungrouped (evalWeighted : Bool) :
    RecallService.recall C s (ungrouped task limit evalWeighted) =
      (found C s (ungrouped task limit evalWeighted)).map (·.take limit) := by
  have hnot : ¬ (0 : ℚ) < 0 := lt_irrefl 0
  cases hfound : found C s (ungrouped task limit evalWeighted) with
  | error e =>
      simp only [RecallService.recall, hfound]
      rfl
  | ok ms =>
      simp only [RecallService.recall, hfound, Except.map]
      simp [arranged, ungrouped, bind, Except.bind, pure, Except.pure]

theorem found_plain (h : s.search limit = .ok results) :
    found C s (ungrouped task limit false) = plainMatches C s results := by
  have hsearched : searched C s (ungrouped task limit false)
      (ungrouped task limit false).fetchMultiplier = plainMatches C s results := by
    simp [searched, ungrouped, RecallQuery.fetchMultiplier, h, bind, Except.bind]
  unfold found
  rw [hsearched]
  cases plainMatches_spec (C := C) (s := s) results with
  | inl herr => rw [herr.2]
  | inr hok => rw [hok.2]

theorem found_weighted (h : s.search limit = .ok results)
    (hequal : EqualMultipliers C s task results) :
    found C s (ungrouped task limit true) =
      .ok ((results.filterMap (weighted C s task)).map Prod.snd) := by
  have hranked : Ranked Prod.fst (results.filterMap (weighted C s task)) := by
    obtain ⟨factor, hfactor⟩ := hequal
    rw [Ranked, List.pairwise_filterMap]
    refine (s.search_ranked _ _ h).imp_of_mem ?_
    intro x x' hx hx' hle y hy y' hy'
    rw [(weighted_eq_some hy).1, (weighted_eq_some hy').1, hfactor x hx, hfactor x' hx']
    exact mul_le_mul_of_nonneg_right hle (hfactor x hx ▸ multiplier_nonneg C s task x.1)
  have hlength : (results.filterMap (weighted C s task)).length ≤ limit :=
    (List.length_filterMap_le _ _).trans (s.search_length _ _ h)
  have hsearched : searched C s (ungrouped task limit true)
      (ungrouped task limit true).fetchMultiplier =
        .ok ((results.filterMap (weighted C s task)).map Prod.snd) := by
    simp [searched, find, ungrouped, RecallQuery.fetchMultiplier, h, hranked.sortedDesc_eq,
      List.take_of_length_le hlength, bind, Except.bind, pure, Except.pure]
  rw [found, hsearched]

theorem plain_isSome {x : Text × ℚ} (h : ¬ PlainRaises C s x) :
    (plain C s x).isSome = (loadPattern C s x.1).isSome := by
  cases not_plainRaises h with
  | inl hnone => simp [plain, hnone]
  | inr hsome =>
      obtain ⟨pattern, hload, hnonneg⟩ := hsome
      simp [plain, hload, plainMatch, hnonneg, Except.toOption]

theorem weighted_isSome (task : Text) {x : Text × ℚ} (h : ¬ PlainRaises C s x) :
    (weighted C s task x).isSome = (loadPattern C s x.1).isSome := by
  cases not_plainRaises h with
  | inl hnone => simp [weighted, hnone]
  | inr hsome =>
      obtain ⟨pattern, hload, _⟩ := hsome
      simp [weighted, hload]

theorem unitScore_eq_iff {x : ℚ} (h : 0 ≤ x) : min x 1 = unitScore x ↔ HasDecimals 6 (min x 1) := by
  rw [unitScore, max_eq_left h]
  constructor
  · intro heq
    rw [heq]
    exact hasDecimals_roundTo 6 _
  · intro hdecimals
    exact hdecimals.roundTo_eq.symm

/-- The candidates that have a record. -/
def readable (C : RecallContext) (s : RecallStore) (results : List (Text × ℚ)) :
    List (Text × ℚ) :=
  results.filter fun x => (loadPattern C s x.1).isSome

theorem map_plain {γ : Type} {field : Match → γ} {key : Text × ℚ → γ}
    (h : ∀ x ∈ results, ¬ PlainRaises C s x)
    (hfield : ∀ x m, plain C s x = some m → field m = key x) :
    (results.filterMap (plain C s)).map field = (readable C s results).map key := by
  rw [map_filterMap_eq fun x _ => hfield x, readable,
    List.filter_congr fun x hx => plain_isSome (h x hx)]

theorem map_weighted {γ : Type} {field : Match → γ} {key : Text × ℚ → γ}
    (h : ∀ x ∈ results, ¬ PlainRaises C s x)
    (hfield : ∀ x y, weighted C s task x = some y → field y.2 = key x) :
    ((results.filterMap (weighted C s task)).map Prod.snd).map field =
      (readable C s results).map key := by
  have hmap : (results.filterMap (weighted C s task)).map (fun y => field y.2) =
      (results.filter fun x => (weighted C s task x).isSome).map key :=
    map_filterMap_eq fun x _ => hfield x
  rw [List.map_map, readable, ← List.filter_congr fun x hx => weighted_isSome task (h x hx)]
  exact hmap

theorem same_keys (h : ∀ x ∈ results, ¬ PlainRaises C s x) :
    (results.filterMap (plain C s)).map Match.patternKey =
      ((results.filterMap (weighted C s task)).map Prod.snd).map Match.patternKey := by
  rw [map_plain h fun x m hm => (plain_eq_some hm).1,
    map_weighted h fun x y hy => (weighted_eq_some hy).2.1]

theorem same_similarities (h : ∀ x ∈ results, ¬ PlainRaises C s x) :
    (results.filterMap (plain C s)).map Match.similarity =
        ((results.filterMap (weighted C s task)).map Prod.snd).map Match.similarity ↔
      ∀ x ∈ results, (loadPattern C s x.1).isSome → HasDecimals 6 (min x.2 1) := by
  have hnonneg : ∀ x ∈ results, (loadPattern C s x.1).isSome = true → 0 ≤ x.2 := by
    intro x hx hload
    cases not_plainRaises (h x hx) with
    | inl hnone => simp [hnone] at hload
    | inr hsome =>
        obtain ⟨_, _, hnonneg⟩ := hsome
        exact hnonneg
  rw [map_plain h fun x m hm => (plain_eq_some hm).2.1,
    map_weighted h fun x y hy => (weighted_eq_some hy).2.2.1, List.map_inj_left]
  constructor
  · intro heq x hx hload
    exact (unitScore_eq_iff (hnonneg x hx hload)).mp (heq x (List.mem_filter.mpr ⟨hx, hload⟩))
  · intro hdecimals x hx
    obtain ⟨hmem, hload⟩ := List.mem_filter.mp hx
    exact (unitScore_eq_iff (hnonneg x hmem hload)).mpr (hdecimals x hmem hload)

/-- The plain path agrees with the weighed one exactly when every candidate that has a record is
a pattern of non-negative similarity, and equal weights meet similarities of six decimals. -/
theorem plain_agrees_iff (h : s.search limit = .ok results) :
    PlainAgrees C s task limit results ↔
      (∀ x ∈ results, ¬ PlainRaises C s x) ∧
        (EqualMultipliers C s task results →
          ∀ x ∈ results, (loadPattern C s x.1).isSome → HasDecimals 6 (min x.2 1)) := by
  have hlength := s.search_length _ _ h
  unfold PlainAgrees
  rw [recall_ungrouped, recall_ungrouped, found_plain h]
  cases plainMatches_spec (C := C) (s := s) results with
  | inl hraises =>
      rw [hraises.2]
      constructor
      · intro hagrees
        obtain ⟨ms, hms, _⟩ := hagrees
        cases hms
      · intro hreads
        obtain ⟨x, hx, hraises⟩ := hraises.1
        exact absurd hraises (hreads.1 x hx)
  | inr hreads =>
      have hplain : (results.filterMap (plain C s)).take limit = results.filterMap (plain C s) :=
        List.take_of_length_le ((List.length_filterMap_le _ _).trans hlength)
      have hweighted : ((results.filterMap (weighted C s task)).map Prod.snd).take limit =
          (results.filterMap (weighted C s task)).map Prod.snd :=
        List.take_of_length_le
          ((List.length_map _).le.trans ((List.length_filterMap_le _ _).trans hlength))
      rw [hreads.2]
      simp only [Except.map, hplain]
      constructor
      · intro hagrees
        obtain ⟨ms, hms, hequals⟩ := hagrees
        cases hms
        refine ⟨hreads.1, ?_⟩
        intro hequal
        obtain ⟨ms', hms', _, hsims⟩ := hequals hequal
        rw [found_weighted h hequal] at hms'
        simp only [hweighted] at hms'
        cases hms'
        exact (same_similarities hreads.1).mp hsims
      · intro hdecimals
        refine ⟨_, rfl, ?_⟩
        intro hequal
        rw [found_weighted h hequal]
        simp only [hweighted]
        exact ⟨_, rfl, same_keys hreads.1,
          (same_similarities hreads.1).mpr (hdecimals.2 hequal)⟩

theorem plain_agrees_iff_two : PlainAgrees plainContext twoRecords "sort a list".toList 2
    [("b".toList, 4 / 5), ("a".toList, 3 / 5)] := by
  apply (plain_agrees_iff rfl).mpr
  constructor
  · intro x hx
    simp only [List.mem_cons, List.not_mem_nil, or_false] at hx
    cases hx with
    | inl hx =>
        subst hx
        intro hraises
        exact absurd hraises (not_lt.mpr (by norm_num : (0 : ℚ) ≤ 4 / 5))
    | inr hx =>
        subst hx
        intro hraises
        exact absurd hraises (not_lt.mpr (by norm_num : (0 : ℚ) ≤ 3 / 5))
  · intro _ x hx _
    simp only [List.mem_cons, List.not_mem_nil, or_false] at hx
    cases hx with
    | inl hx => exact ⟨800000, by rw [hx]; norm_num⟩
    | inr hx => exact ⟨600000, by rw [hx]; norm_num⟩

/-- A pattern whose embedding points away from that of the task. -/
def oppositeStore : RecallStore :=
  rankedStore [("a".toList, taskRecord "sort a list")] [("a".toList, -1 / 10)] solo_nodup
    (by decide) (by norm_num [Ranked])

/-- A negative similarity raises on the plain path, where the weighed one answers. -/
theorem negative_similarity_raises :
    oppositeStore.search 5 = .ok [("a".toList, -1 / 10)] ∧
      RecallService.recall plainContext oppositeStore (ungrouped "draw a map".toList 5 false) =
        .error .validation ∧
      (∃ m, RecallService.recall plainContext oppositeStore
        (ungrouped "draw a map".toList 5 true) = .ok [m]) ∧
      ¬ PlainAgrees plainContext oppositeStore "draw a map".toList 5
        [("a".toList, -1 / 10)] := by
  have hraises : PlainRaises plainContext oppositeStore ("a".toList, -1 / 10) :=
    show (-1 / 10 : ℚ) < 0 by norm_num
  have hsearch : oppositeStore.search 5 = .ok [("a".toList, -1 / 10)] := rfl
  have hplain : RecallService.recall plainContext oppositeStore
      (ungrouped "draw a map".toList 5 false) =
      .error .validation := by
    rw [recall_ungrouped, found_plain hsearch]
    cases plainMatches_spec (C := plainContext) (s := oppositeStore) [("a".toList, -1 / 10)] with
    | inl herr =>
        rw [herr.2]
        rfl
    | inr hok => exact absurd hraises (hok.1 _ List.mem_cons_self)
  refine ⟨hsearch, hplain, ⟨_, rfl⟩, ?_⟩
  intro hagrees
  obtain ⟨ms, hms, _⟩ := hagrees
  rw [hplain] at hms
  cases hms

end Engramia.Recall
