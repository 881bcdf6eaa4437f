import Engramia.Recall.Order

/-!
How many matches a recall with groups returns. On the plain path all the candidates of the
search are grouped before the limit. On the weighed path the limit comes first, to the
candidates with the highest scores, and what is grouped afterwards may be fewer groups than the
candidates have, or more where a candidate that linked two others is gone.
-/
namespace Engramia.Recall
open Engramia.Library Engramia.Storage Engramia.Patterns

variable {C : RecallContext} {s : RecallStore} {q : RecallQuery} {ms : List Match}
  {results : List (Text × ℚ)}

def RecallQuery.grouped (q : RecallQuery) (evalWeighted : Bool) : RecallQuery :=
  { q with deduplicate := true, evalWeighted := evalWeighted }

/-- The tasks of the candidates that are patterns. -/
def candidateTasks (C : RecallContext) (s : RecallStore) (results : List (Text × ℚ)) : List Text :=
  results.filterMap fun x => (loadPattern C s x.1).join.map PatternDoc.task

/-- The tasks of the candidates with the highest weighed scores. -/
def topTasks (C : RecallContext) (s : RecallStore) (q : RecallQuery)
    (results : List (Text × ℚ)) : List Text :=
  let scored := results.filterMap fun x => (loadPattern C s x.1).join.map fun pattern =>
    (x.2 * multiplier C s q.task x.1, pattern.task)
  ((sortedDesc Prod.fst scored).take q.limit).map Prod.snd

/-- Recall returns as many matches as there are groups of candidates, up to the limit. -/
def FillsLimit (C : RecallContext) (s : RecallStore) (q : RecallQuery)
    (results : List (Text × ℚ)) : Prop :=
  ∀ evalWeighted, ∃ ms, RecallService.recall C s (q.grouped evalWeighted) = .ok ms ∧
    ms.length = min q.limit (groupCount C.text (candidateTasks C s results))

/-- The candidates with the highest scores form as many groups as the limit or all candidates
have: no two of them have one task, or they make up all the groups. -/
def TopKeepsGroups (C : RecallContext) (s : RecallStore) (q : RecallQuery)
    (results : List (Text × ℚ)) : Prop :=
  (q.limit ≤ groupCount C.text (candidateTasks C s results) ∧
    (topTasks C s q results).Pairwise fun a b => ¬ SameTask C.text a b) ∨
  (groupCount C.text (candidateTasks C s results) < q.limit ∧
    groupCount C.text (topTasks C s q results) = groupCount C.text (candidateTasks C s results))

theorem tasks_applyRecencyWeight (weight halfLifeDays : ℚ) :
    ((applyRecencyWeight C weight halfLifeDays ms).map fun m => m.pattern.task).Perm
      (ms.map fun m => m.pattern.task) := by
  unfold applyRecencyWeight
  split
  · exact List.Perm.refl _
  · have hperm := (sortedDesc_perm (fun m : Match => m.effectiveScore.getD 0)
      (ms.map (recencyWeighted C weight halfLifeDays))).map fun m => m.pattern.task
    rw [List.map_map] at hperm
    exact hperm

theorem length_arranged (hgroups : q.deduplicate = true) :
    (arranged C q ms).length = groupCount C.text (ms.map fun m => m.pattern.task) := by
  rw [arranged, if_pos hgroups, length_deduplicateMatches]
  apply groupCount_perm
  split
  · exact tasks_applyRecencyWeight _ _
  · exact List.Perm.refl _

theorem recall_of_found (h : found C s q = .ok ms) :
    RecallService.recall C s q = .ok ((arranged C q ms).take q.limit) := by
  unfold RecallService.recall
  rw [h]
  rfl

theorem tasks_plain (h : ∀ x ∈ results, ¬ PlainRaises C s x) :
    (results.filterMap (plain C s)).map (fun m => m.pattern.task) =
      candidateTasks C s results := by
  rw [List.map_filterMap, candidateTasks]
  apply List.filterMap_congr
  intro x hx
  cases not_plainRaises (h x hx) with
  | inl hnone => simp [plain, hnone]
  | inr hsome =>
      obtain ⟨pattern, hload, hnonneg⟩ := hsome
      simp [plain, hload, plainMatch, hnonneg, Except.toOption]

theorem tasks_weighted (task : Text) (limit : ℕ) :
    (((sortedDesc Prod.fst (results.filterMap (weighted C s task))).take limit).map
        fun y => y.2.pattern.task) =
      ((sortedDesc Prod.fst (results.filterMap fun x => (loadPattern C s x.1).join.map
        fun pattern => (x.2 * multiplier C s task x.1, pattern.task))).take limit).map
          Prod.snd := by
  have hscored : (results.filterMap fun x => (loadPattern C s x.1).join.map
      fun pattern => (x.2 * multiplier C s task x.1, pattern.task)) =
        (results.filterMap (weighted C s task)).map fun y => (y.1, y.2.pattern.task) := by
    rw [List.map_filterMap]
    apply List.filterMap_congr
    intro x _
    cases hload : loadPattern C s x.1 with
    | none => simp [weighted, hload]
    | some loaded => cases loaded <;> simp [weighted, hload]
  rw [hscored, sortedDesc_map, ← List.map_take, List.map_map]
  rfl

variable (C s q results) in
theorem length_topTasks :
    (topTasks C s q results).length = min q.limit (candidateTasks C s results).length := by
  have hscored : candidateTasks C s results =
      (results.filterMap fun x => (loadPattern C s x.1).join.map fun pattern =>
        (x.2 * multiplier C s q.task x.1, pattern.task)).map Prod.snd := by
    rw [List.map_filterMap, candidateTasks]
    simp only [Option.map_map]
    rfl
  rw [topTasks, List.length_map, List.length_take, length_sortedDesc, hscored, List.length_map]

theorem grouped_fetchMultiplier (evalWeighted : Bool) :
    (q.grouped evalWeighted).fetchMultiplier = 3 := rfl

theorem found_grouped_plain (h : s.search (q.limit * 3) = .ok results) :
    found C s (q.grouped false) = plainMatches C s results := by
  have hsearched : searched C s (q.grouped false) 3 = plainMatches C s results := by
    simp [searched, RecallQuery.grouped, h, bind, Except.bind]
  unfold found
  rw [grouped_fetchMultiplier, hsearched]
  cases plainMatches_spec (C := C) (s := s) results with
  | inl herr => rw [herr.2]
  | inr hok => rw [hok.2]

theorem found_grouped_weighted (h : s.search (q.limit * 3) = .ok results) :
    found C s (q.grouped true) = .ok
      (((sortedDesc Prod.fst (results.filterMap (weighted C s q.task))).take q.limit).map
        Prod.snd) := by
  have hsearched : searched C s (q.grouped true) 3 = .ok
      (((sortedDesc Prod.fst (results.filterMap (weighted C s q.task))).take q.limit).map
        Prod.snd) := by
    simp [searched, find, RecallQuery.grouped, h, bind, Except.bind, pure, Except.pure]
  unfold found
  rw [grouped_fetchMultiplier, hsearched]

theorem fillsLimit_plain (h : s.search (q.limit * 3) = .ok results) :
    (∃ ms, RecallService.recall C s (q.grouped false) = .ok ms ∧
      ms.length = min q.limit (groupCount C.text (candidateTasks C s results))) ↔
        ∀ x ∈ results, ¬ PlainRaises C s x := by
  have hfound : found C s (q.grouped false) = plainMatches C s results := found_grouped_plain h
  cases plainMatches_spec (C := C) (s := s) results with
  | inl hraises =>
      have herror : RecallService.recall C s (q.grouped false) = .error .validation := by
        unfold RecallService.recall
        rw [hfound, hraises.2]
        rfl
      constructor
      · intro hfills
        obtain ⟨ms, hms, _⟩ := hfills
        rw [herror] at hms
        cases hms
      · intro hreads
        obtain ⟨x, hx, hraises⟩ := hraises.1
        exact absurd hraises (hreads x hx)
  | inr hreads =>
      apply iff_of_true _ hreads.1
      refine ⟨_, recall_of_found (hfound.trans hreads.2), ?_⟩
      rw [List.length_take, length_arranged rfl, tasks_plain hreads.1]
      rfl

theorem recall_grouped_weighted (h : s.search (q.limit * 3) = .ok results) :
    ∃ ms, RecallService.recall C s (q.grouped true) = .ok ms ∧
      ms.length = groupCount C.text (topTasks C s q results) := by
  refine ⟨_, recall_of_found (found_grouped_weighted h), ?_⟩
  have htasks : ((((sortedDesc Prod.fst (results.filterMap (weighted C s q.task))).take
      q.limit).map Prod.snd).map fun m => m.pattern.task) = topTasks C s q results := by
    rw [List.map_map]
    exact tasks_weighted q.task q.limit
  have hle : groupCount C.text (topTasks C s q results) ≤ q.limit :=
    (groupCount_le_length _).trans ((length_topTasks C s q results).le.trans (min_le_left _ _))
  rw [List.length_take, length_arranged rfl, htasks]
  exact min_eq_right hle

/-- The candidates with the highest scores are as many groups as recall should return exactly
when they keep the groups. -/
theorem topKeepsGroups_iff :
    groupCount C.text (topTasks C s q results) =
        min q.limit (groupCount C.text (candidateTasks C s results)) ↔
      TopKeepsGroups C s q results := by
  have hle := groupCount_le_length (T := C.text) (candidateTasks C s results)
  have hlength := length_topTasks C s q results
  rw [TopKeepsGroups]
  by_cases hlimit : q.limit ≤ groupCount C.text (candidateTasks C s results)
  · have hfull : (topTasks C s q results).length = q.limit := by omega
    rw [min_eq_left hlimit, ← groupCount_eq_length_iff, hfull]
    constructor
    · intro heq
      exact Or.inl ⟨hlimit, heq⟩
    · intro hkeeps
      cases hkeeps with
      | inl hfresh => exact hfresh.2
      | inr hfew => omega
  · rw [min_eq_right (not_le.mp hlimit).le]
    constructor
    · intro heq
      exact Or.inr ⟨not_le.mp hlimit, heq⟩
    · intro hkeeps
      cases hkeeps with
      | inl hfresh => exact absurd hfresh.1 hlimit
      | inr hfew => exact hfew.2

/-- Recall fills its limit on both paths exactly when every candidate is a pattern of
non-negative similarity and those with the highest scores keep the groups. -/
theorem fills_limit_iff (h : s.search (q.limit * 3) = .ok results) :
    FillsLimit C s q results ↔
      (∀ x ∈ results, ¬ PlainRaises C s x) ∧ TopKeepsGroups C s q results := by
  rw [FillsLimit, Bool.forall_bool, fillsLimit_plain h, ← topKeepsGroups_iff]
  obtain ⟨ms, hms, hlength⟩ := recall_grouped_weighted (C := C) h
  rw [hms, ← hlength]
  simp

def pairQuery : RecallQuery where
  task := "sort a list".toList
  limit := 2
  deduplicate := true
  evalWeighted := true
  recencyWeight := 0
  recencyHalfLifeDays := 30

/-- Three records of different tasks, of which recall returns two. -/
def soloStore : RecallStore :=
  rankedStore [("a".toList, taskRecord "sort a list"), ("b".toList, taskRecord "draw a map"),
      ("c".toList, taskRecord "count the words")]
    [("a".toList, 9 / 10), ("b".toList, 8 / 10), ("c".toList, 7 / 10)] (by decide) (by decide)
    (by norm_num [Ranked])

def distinctResults : List (Text × ℚ) :=
  [("a".toList, 9 / 10), ("b".toList, 8 / 10), ("c".toList, 7 / 10)]

theorem distinct_topTasks : topTasks plainContext soloStore pairQuery distinctResults =
    ["sort a list".toList, "draw a map".toList] := by
  have hscored : (distinctResults.filterMap fun x =>
      (loadPattern plainContext soloStore x.1).join.map fun pattern =>
        (x.2 * multiplier plainContext soloStore pairQuery.task x.1, pattern.task)) =
      [(9 / 10 * (3 / 4), "sort a list".toList), (8 / 10 * (3 / 4), "draw a map".toList),
        (7 / 10 * (3 / 4), "count the words".toList)] := rfl
  have hranked : Ranked Prod.fst [((9 / 10 * (3 / 4) : ℚ), "sort a list".toList),
      (8 / 10 * (3 / 4), "draw a map".toList), (7 / 10 * (3 / 4), "count the words".toList)] := by
    norm_num [Ranked]
  rw [topTasks, hscored, hranked.sortedDesc_eq]
  rfl

theorem distinct_groups : 1 < groupCount plainContext.text
    (candidateTasks plainContext soloStore distinctResults) := by
  have hfresh : ∀ c ∈ ["sort a list".toList, "draw a map".toList],
      ¬ SameTask asciiText "count the words".toList c := by decide
  have htasks : candidateTasks plainContext soloStore distinctResults =
      ["sort a list".toList, "draw a map".toList] ++ ["count the words".toList] := rfl
  rw [htasks]
  exact one_lt_groupCount hfresh

theorem fills_limit_solo :
    FillsLimit plainContext soloStore pairQuery distinctResults := by
  apply (fills_limit_iff rfl).mpr
  constructor
  · intro x hx
    simp only [distinctResults, List.mem_cons, List.not_mem_nil, or_false] at hx
    obtain rfl | rfl | rfl := hx
    · exact not_lt.mpr (by norm_num : (0 : ℚ) ≤ 9 / 10)
    · exact not_lt.mpr (by norm_num : (0 : ℚ) ≤ 8 / 10)
    · exact not_lt.mpr (by norm_num : (0 : ℚ) ≤ 7 / 10)
  · refine Or.inl ⟨distinct_groups, ?_⟩
    rw [distinct_topTasks]
    decide

/-- Three records, of which the search finds two of one task first. -/
def crowdedStore : RecallStore :=
  rankedStore [("a".toList, taskRecord "sort a list"), ("b".toList, taskRecord "sort a list"),
      ("c".toList, taskRecord "draw a map")]
    [("a".toList, 9 / 10), ("b".toList, 8 / 10), ("c".toList, 7 / 10)] (by decide) (by decide)
    (by norm_num [Ranked])

def crowdedResults : List (Text × ℚ) :=
  [("a".toList, 9 / 10), ("b".toList, 8 / 10), ("c".toList, 7 / 10)]

theorem crowded_topTasks : topTasks plainContext crowdedStore pairQuery crowdedResults =
    ["sort a list".toList, "sort a list".toList] := by
  have hscored : (crowdedResults.filterMap fun x =>
      (loadPattern plainContext crowdedStore x.1).join.map fun pattern =>
        (x.2 * multiplier plainContext crowdedStore pairQuery.task x.1, pattern.task)) =
      [(9 / 10 * (3 / 4), "sort a list".toList), (8 / 10 * (3 / 4), "sort a list".toList),
        (7 / 10 * (3 / 4), "draw a map".toList)] := rfl
  have hranked : Ranked Prod.fst [((9 / 10 * (3 / 4) : ℚ), "sort a list".toList),
      (8 / 10 * (3 / 4), "sort a list".toList), (7 / 10 * (3 / 4), "draw a map".toList)] := by
    norm_num [Ranked]
  rw [topTasks, hscored, hranked.sortedDesc_eq]
  rfl

theorem crowded_groups : 1 < groupCount plainContext.text
    (candidateTasks plainContext crowdedStore crowdedResults) := by
  have hfresh : ∀ c ∈ ["sort a list".toList, "sort a list".toList],
      ¬ SameTask asciiText "draw a map".toList c := by decide
  have htasks : candidateTasks plainContext crowdedStore crowdedResults =
      ["sort a list".toList, "sort a list".toList] ++ ["draw a map".toList] := rfl
  rw [htasks]
  exact one_lt_groupCount hfresh

/-- The two candidates with the highest scores are one group, and the third is another one. -/
theorem crowded_limit_unfilled :
    crowdedStore.search (pairQuery.limit * 3) = .ok crowdedResults ∧
      1 < groupCount plainContext.text
        (candidateTasks plainContext crowdedStore crowdedResults) ∧
      (∃ ms, RecallService.recall plainContext crowdedStore (pairQuery.grouped true) = .ok ms ∧
        ms.length < 2) ∧
      ¬ FillsLimit plainContext crowdedStore pairQuery crowdedResults := by
  have hsearch : crowdedStore.search (pairQuery.limit * 3) = .ok crowdedResults := rfl
  have hsame : ¬ ["sort a list".toList, "sort a list".toList].Pairwise
      fun a b => ¬ SameTask asciiText a b := by decide
  obtain ⟨ms, hms, hlength⟩ := recall_grouped_weighted (C := plainContext) hsearch
  rw [crowded_topTasks] at hlength
  have hshort : ms.length < 2 := by
    have hle := groupCount_le_length (T := asciiText) ["sort a list".toList, "sort a list".toList]
    have hne : ms.length ≠ 2 := fun heq => hsame (groupCount_eq_length_iff.mp (hlength ▸ heq))
    have hbound : ms.length ≤ 2 := hlength.le.trans hle
    omega
  refine ⟨hsearch, crowded_groups, ⟨ms, hms, hshort⟩, ?_⟩
  intro hfills
  obtain ⟨ms', hms', hfull⟩ := hfills true
  rw [hms] at hms'
  cases hms'
  have htwo : min pairQuery.limit (groupCount plainContext.text
      (candidateTasks plainContext crowdedStore crowdedResults)) = 2 := min_eq_left crowded_groups
  omega

end Engramia.Recall
