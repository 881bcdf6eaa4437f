import Engramia.Recall.Paths

/-!
The order of what recall returns. Each path yields matches under distinct keys, in the order of
the score that they are ranked by: a search is ordered by similarity, and clamping and rounding
are monotone. Recency ranks anew, and groups and the limit take a part of the list.
-/
namespace Engramia.Recall
open Engramia.Library Engramia.Storage Engramia.Patterns

structure Ordered (ms : List Match) : Prop where
  distinct : (ms.map Match.patternKey).Nodup
  ranked : Ranked Match.rankingScore ms

variable {C : RecallContext} {s : RecallStore} {q : RecallQuery} {ms ms' : List Match}

theorem Ordered.sublist (h : Ordered ms) (hms : ms'.Sublist ms) : Ordered ms' :=
  ⟨List.Nodup.sublist (hms.map _) h.distinct, h.ranked.sublist hms⟩

theorem map_filterMap_eq {α β γ : Type} {f : α → Option β} {key : α → γ} {key' : β → γ}
    {l : List α} (hkey : ∀ a ∈ l, ∀ b, f a = some b → key' b = key a) :
    (l.filterMap f).map key' = (l.filter fun a => (f a).isSome).map key := by
  induction l with
  | nil => rfl
  | cons a l ih =>
      obtain ⟨ha, hl⟩ := List.forall_mem_cons.mp hkey
      cases hf : f a with
      | none => simp [hf, ih hl]
      | some b => simp [hf, ih hl, ha b hf]

/-- What a path makes of the candidates has keys among theirs. -/
theorem map_filterMap_sublist {α β γ : Type} {f : α → Option β} {key : α → γ} {key' : β → γ}
    (hkey : ∀ a b, f a = some b → key' b = key a) (l : List α) :
    ((l.filterMap f).map key').Sublist (l.map key) := by
  rw [map_filterMap_eq fun a _ => hkey a]
  exact List.filter_sublist.map _

theorem weighted_eq_some {task : Text} {x : Text × ℚ} {y : ℚ × Match}
    (h : weighted C s task x = some y) :
    y.1 = x.2 * multiplier C s task x.1 ∧ y.2.patternKey = x.1 ∧
      y.2.similarity = unitScore x.2 ∧ y.2.effectiveScore = some (unitScore y.1) := by
  unfold weighted at h
  split at h
  · cases h
    exact ⟨rfl, rfl, rfl, rfl⟩
  · cases h

theorem weighted_ordered {task : Text} {results : List (Text × ℚ)}
    (hkeys : (results.map Prod.fst).Nodup) :
    Ordered ((sortedDesc Prod.fst (results.filterMap (weighted C s task))).map Prod.snd) := by
  constructor
  · rw [List.map_map]
    apply ((sortedDesc_perm _ _).map _).nodup_iff.mpr
    apply List.Nodup.sublist _ hkeys
    exact map_filterMap_sublist (fun _ _ h => (weighted_eq_some h).2.1) results
  · rw [Ranked, List.pairwise_map]
    refine (ranked_sortedDesc Prod.fst _).imp_of_mem ?_
    intro y y' hy hy' hle
    obtain ⟨x, _, hx⟩ := List.mem_filterMap.mp (mem_sortedDesc.mp hy)
    obtain ⟨x', _, hx'⟩ := List.mem_filterMap.mp (mem_sortedDesc.mp hy')
    rw [Match.rankingScore, Match.rankingScore, (weighted_eq_some hx).2.2.2,
      (weighted_eq_some hx').2.2.2]
    exact unitScore_mono hle

theorem find_ordered {task : Text} {limit fetchMultiplier : ℕ}
    (h : find C s task limit fetchMultiplier = .ok ms) : Ordered ms := by
  unfold find at h
  cases hsearch : s.search (limit * max 1 fetchMultiplier) with
  | error e =>
      rw [hsearch] at h
      cases h
  | ok results =>
      rw [hsearch] at h
      cases h
      exact (weighted_ordered (s.search_nodup _ _ hsearch)).sublist
        ((List.take_sublist _ _).map _)

/-- What the plain path makes of a candidate that it does not raise for. -/
def plain (C : RecallContext) (s : RecallStore) (x : Text × ℚ) : Option Match :=
  match loadPattern C s x.1 with
  | some (some pattern) => (plainMatch pattern x.1 x.2).toOption
  | _ => none

/-- A record that is no pattern, or a pattern of negative similarity. -/
def PlainRaises (C : RecallContext) (s : RecallStore) (x : Text × ℚ) : Prop :=
  match loadPattern C s x.1 with
  | none => False
  | some none => True
  | some (some _) => x.2 < 0

theorem not_plainRaises {x : Text × ℚ} (h : ¬ PlainRaises C s x) :
    loadPattern C s x.1 = none ∨
      ∃ pattern, loadPattern C s x.1 = some (some pattern) ∧ 0 ≤ x.2 := by
  unfold PlainRaises at h
  cases hload : loadPattern C s x.1 with
  | none => exact Or.inl rfl
  | some loaded =>
      cases loaded with
      | none => simp [hload] at h
      | some pattern => exact Or.inr ⟨pattern, rfl, by simpa [hload] using h⟩

theorem plain_eq_some {x : Text × ℚ} {m : Match} (h : plain C s x = some m) :
    m.patternKey = x.1 ∧ m.similarity = min x.2 1 ∧ m.effectiveScore = none := by
  unfold plain plainMatch at h
  split at h
  · split at h
    · cases h
      exact ⟨rfl, rfl, rfl⟩
    · cases h
  · cases h

/-- The plain path raises for the first candidate that it cannot read, and otherwise yields the
matches of the others. -/
theorem plainMatches_spec (results : List (Text × ℚ)) :
    ((∃ x ∈ results, PlainRaises C s x) ∧ plainMatches C s results = .error .validation) ∨
      ((∀ x ∈ results, ¬ PlainRaises C s x) ∧
        plainMatches C s results = .ok (results.filterMap (plain C s))) := by
  induction results with
  | nil => exact Or.inr ⟨fun _ hx => absurd hx List.not_mem_nil, rfl⟩
  | cons x results ih =>
      cases hload : loadPattern C s x.1 with
      | none =>
          have hx : ¬ PlainRaises C s x := by simp [PlainRaises, hload]
          have hplain : plain C s x = none := by simp [plain, hload]
          have hstep : plainMatches C s (x :: results) = plainMatches C s results := by
            simp [plainMatches, hload]
          rw [hstep, List.filterMap_cons_none hplain]
          simpa [hx] using ih
      | some loaded =>
          cases loaded with
          | none =>
              left
              refine ⟨⟨x, List.mem_cons_self, by simp [PlainRaises, hload]⟩, ?_⟩
              simp [plainMatches, hload]
          | some pattern =>
              by_cases hneg : x.2 < 0
              · left
                refine ⟨⟨x, List.mem_cons_self, by simp [PlainRaises, hload, hneg]⟩, ?_⟩
                have hmatch : plainMatch pattern x.1 x.2 = .error .validation :=
                  dif_neg (not_le.mpr hneg)
                simp only [plainMatches, hload, hmatch]
                rfl
              · have hx : ¬ PlainRaises C s x := by simpa [PlainRaises, hload] using hneg
                obtain ⟨m, hm⟩ : ∃ m, plainMatch pattern x.1 x.2 = .ok m :=
                  ⟨_, dif_pos (not_lt.mp hneg)⟩
                have hplain : plain C s x = some m := by
                  simp [plain, hload, hm, Except.toOption]
                rw [List.filterMap_cons_some hplain]
                cases ih with
                | inl herr =>
                    obtain ⟨⟨y, hy, hraises⟩, herr⟩ := herr
                    refine Or.inl ⟨⟨y, List.mem_cons_of_mem _ hy, hraises⟩, ?_⟩
                    simp only [plainMatches, hload, hm, herr]
                    rfl
                | inr hok =>
                    refine Or.inr ⟨List.forall_mem_cons.mpr ⟨hx, hok.1⟩, ?_⟩
                    simp only [plainMatches, hload, hm, hok.2]
                    rfl

theorem plain_ordered {results : List (Text × ℚ)} (hkeys : (results.map Prod.fst).Nodup)
    (hranked : Ranked Prod.snd results) : Ordered (results.filterMap (plain C s)) := by
  constructor
  · apply List.Nodup.sublist _ hkeys
    exact map_filterMap_sublist (fun _ _ h => (plain_eq_some h).1) results
  · apply hranked.filterMap
    intro x x' m m' hx hx' hle
    obtain ⟨_, hsim, heff⟩ := plain_eq_some hx
    obtain ⟨_, hsim', heff'⟩ := plain_eq_some hx'
    rw [Match.rankingScore, Match.rankingScore, heff, heff', Option.getD_none, Option.getD_none,
      hsim, hsim']
    exact min_le_min_right 1 hle

theorem keywordMatch_eq_some {task key : Text} {m : Match}
    (h : keywordMatch C s task key = some m) : m.patternKey = key ∧ m.effectiveScore = none := by
  unfold keywordMatch at h
  split at h
  · simp only [Option.ite_none_right_eq_some] at h
    cases h.2
    exact ⟨rfl, rfl⟩
  · cases h

theorem keyword_ordered (C : RecallContext) (s : RecallStore) (task : Text) :
    Ordered (sortedDesc Match.similarity (s.keys.filterMap (keywordMatch C s task))) := by
  constructor
  · apply ((sortedDesc_perm _ _).map _).nodup_iff.mpr
    have hsub : ((s.keys.filterMap (keywordMatch C s task)).map Match.patternKey).Sublist
        (s.keys.map id) :=
      map_filterMap_sublist (fun _ _ h => (keywordMatch_eq_some h).1) s.keys
    rw [List.map_id] at hsub
    exact List.Nodup.sublist hsub s.keys_nodup
  · refine (ranked_sortedDesc Match.similarity _).imp_of_mem ?_
    intro m m' hm hm' hle
    obtain ⟨_, _, hk⟩ := List.mem_filterMap.mp (mem_sortedDesc.mp hm)
    obtain ⟨_, _, hk'⟩ := List.mem_filterMap.mp (mem_sortedDesc.mp hm')
    rw [Match.rankingScore, Match.rankingScore, (keywordMatch_eq_some hk).2,
      (keywordMatch_eq_some hk').2]
    exact hle

theorem searched_ordered {fetchMultiplier : ℕ} (h : searched C s q fetchMultiplier = .ok ms) :
    Ordered ms := by
  unfold searched at h
  split at h
  · exact find_ordered h
  · cases hsearch : s.search (q.limit * fetchMultiplier) with
    | error e =>
        rw [hsearch] at h
        cases h
    | ok results =>
        rw [hsearch] at h
        have hspec := plainMatches_spec (C := C) (s := s) results
        change plainMatches C s results = .ok ms at h
        cases hspec with
        | inl herr =>
            rw [herr.2] at h
            cases h
        | inr hok =>
            rw [hok.2] at h
            cases h
            exact plain_ordered (s.search_nodup _ _ hsearch) (s.search_ranked _ _ hsearch)

theorem found_ordered (h : found C s q = .ok ms) : Ordered ms := by
  unfold found at h
  split at h
  · cases h
    exact (keyword_ordered C s q.task).sublist (List.take_sublist _ _)
  · exact searched_ordered h

theorem applyRecencyWeight_ordered (weight halfLifeDays : ℚ) (h : Ordered ms) :
    Ordered (applyRecencyWeight C weight halfLifeDays ms) := by
  unfold applyRecencyWeight
  split
  · exact h
  · constructor
    · apply ((sortedDesc_perm _ _).map _).nodup_iff.mpr
      rw [List.map_map]
      exact h.distinct
    · refine (ranked_sortedDesc _ _).imp_of_mem ?_
      intro m m' hm hm' hle
      obtain ⟨_, _, rfl⟩ := List.mem_map.mp (mem_sortedDesc.mp hm)
      obtain ⟨_, _, rfl⟩ := List.mem_map.mp (mem_sortedDesc.mp hm')
      exact hle

theorem arranged_ordered (C : RecallContext) (q : RecallQuery) (h : Ordered ms) :
    Ordered (arranged C q ms) := by
  have hweighed : Ordered (if 0 < q.recencyWeight then
      applyRecencyWeight C q.recencyWeight q.recencyHalfLifeDays ms else ms) := by
    split
    · exact applyRecencyWeight_ordered _ _ h
    · exact h
  rw [arranged]
  split
  · exact hweighed.sublist deduplicateMatches_sublist
  · exact hweighed

/-- What recall returns has at most `limit` matches, under distinct keys, the best first. -/
theorem recall_ordered (h : RecallService.recall C s q = .ok ms) :
    ms.length ≤ q.limit ∧ (ms.map Match.patternKey).Nodup ∧ Ranked Match.rankingScore ms := by
  unfold RecallService.recall at h
  cases hfound : found C s q with
  | error e =>
      rw [hfound] at h
      cases h
  | ok matched =>
      rw [hfound] at h
      cases h
      have hall := (arranged_ordered C q (found_ordered hfound)).sublist
        (List.take_sublist q.limit _)
      exact ⟨List.length_take_le _ _, hall.distinct, hall.ranked⟩

/-- Two records of one task, the second of them searched for first. -/
def twoRecords : RecallStore :=
  rankedStore [("a".toList, taskRecord "sort a list"), ("b".toList, taskRecord "sort a list")]
    [("b".toList, 4 / 5), ("a".toList, 3 / 5)] (by decide) (by decide)
    (by norm_num [Ranked])

def freshQuery : RecallQuery where
  task := "sort a list".toList
  limit := 1
  deduplicate := true
  evalWeighted := true
  recencyWeight := 1 / 2
  recencyHalfLifeDays := 30

theorem recall_ordered_two :
    ∃ ms, RecallService.recall plainContext twoRecords freshQuery = .ok ms ∧
    ms.length ≤ 1 ∧ (ms.map Match.patternKey).Nodup ∧ Ranked Match.rankingScore ms := by
  have h : ∃ ms, RecallService.recall plainContext twoRecords freshQuery = .ok ms := ⟨_, rfl⟩
  obtain ⟨ms, hms⟩ := h
  exact ⟨ms, hms, recall_ordered hms⟩

end Engramia.Recall
