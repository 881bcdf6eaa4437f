import Engramia.Recall.Order
import Mathlib.Data.List.NodupEquivFin

/-!
Recall over a part of the matches. When no match outside the part has the task of one inside, the
groups of the part are groups of the whole, so the part is arranged as it is within the whole.
-/
namespace Engramia.Recall
open Engramia.Library Engramia.Storage Engramia.Patterns

variable {C : RecallContext} {q : RecallQuery} {T : TextMethods} {ms part : List Match}

/-- A part of the matches that shares no task with the rest. -/
structure Apart (T : TextMethods) (ms part : List Match) : Prop where
  sublist : part.Sublist ms
  apart : ∀ x ∈ ms, x.patternKey ∉ part.map Match.patternKey →
    ∀ y ∈ part, ¬ SameTask T x.pattern.task y.pattern.task

/-- A walk from a vertex of an induced subgraph without edges to the rest stays there. -/
theorem reachable_of_closed {V W : Type} {G : SimpleGraph V} {H : SimpleGraph W} {e : V → W}
    (hadj : ∀ x y, H.Adj (e x) (e y) → G.Adj x y)
    (hclosed : ∀ x w, H.Adj (e x) w → ∃ y, e y = w) {x : V} {w : W}
    (h : H.Reachable (e x) w) : ∃ y, e y = w ∧ G.Reachable x y := by
  obtain ⟨walk⟩ := h
  generalize hv : e x = v at walk
  induction walk generalizing x with
  | nil => exact ⟨x, hv, .refl x⟩
  | cons hstep _ ih =>
      subst hv
      obtain ⟨y, rfl⟩ := hclosed x _ hstep
      obtain ⟨z, hz, hreach⟩ := ih rfl
      exact ⟨z, hz, (hadj x y hstep).reachable.trans hreach⟩

section Positions
variable {e : Fin part.length ↪o Fin ms.length}

theorem Apart.mem_part (h : Apart T ms part) (hkeys : (ms.map Match.patternKey).Nodup)
    {m : Match} (hm : m ∈ ms) (hkey : m.patternKey ∈ part.map Match.patternKey) : m ∈ part := by
  rw [sublist_eq_filter h.sublist hkeys]
  exact List.mem_filter.mpr ⟨hm, by simpa using hkey⟩

theorem exists_position (hkeys : (ms.map Match.patternKey).Nodup)
    (he : ∀ i, part.get i = ms.get (e i)) {k : Fin ms.length} (hk : ms.get k ∈ part) :
    ∃ i, e i = k := by
  obtain ⟨i, hi⟩ := List.get_of_mem hk
  exact ⟨i, (List.Nodup.of_map _ hkeys).injective_get (by rw [← he, hi])⟩

theorem adj_position (he : ∀ i, part.get i = ms.get (e i)) (i j : Fin part.length) :
    (taskGraph T (taskOf ms)).Adj (e i) (e j) ↔ (taskGraph T (taskOf part)).Adj i j := by
  have htask : ∀ i, taskOf ms (e i) = taskOf part i := by
    intro i
    rw [taskOf, taskOf, he]
  change e i ≠ e j ∧ SameTask T (taskOf ms (e i)) (taskOf ms (e j)) ↔
    i ≠ j ∧ SameTask T (taskOf part i) (taskOf part j)
  rw [htask, htask, e.injective.ne_iff]

theorem beats_position (he : ∀ i, part.get i = ms.get (e i)) (i j : Fin part.length) :
    Beats ms (e i) (e j) ↔ Beats part i j := by
  have hscore : ∀ i, scoreOf ms (e i) = scoreOf part i := by
    intro i
    rw [scoreOf, scoreOf, he]
  rw [Beats, Beats, hscore, hscore, e.le_iff_le]

theorem Apart.closed (h : Apart T ms part) (hkeys : (ms.map Match.patternKey).Nodup)
    (he : ∀ i, part.get i = ms.get (e i)) (i : Fin part.length) (k : Fin ms.length)
    (hadj : (taskGraph T (taskOf ms)).Adj (e i) k) : ∃ j, e j = k := by
  apply exists_position hkeys he
  by_contra hout
  have hkey : (ms.get k).patternKey ∉ part.map Match.patternKey :=
    fun hkey => hout (h.mem_part hkeys (List.get_mem _ _) hkey)
  apply h.apart _ (List.get_mem _ _) hkey (part.get i) (List.get_mem _ _)
  rw [he]
  exact hadj.symm.2

theorem Apart.mem_keptIndices (h : Apart T ms part) (hkeys : (ms.map Match.patternKey).Nodup)
    (he : ∀ i, part.get i = ms.get (e i)) (i : Fin part.length) :
    e i ∈ keptIndices T ms ↔ i ∈ keptIndices T part := by
  rw [Recall.mem_keptIndices, Recall.mem_keptIndices]
  constructor
  · intro hall j hij
    rw [← beats_position he]
    apply hall
    exact hij.map ⟨e, fun hadj => (adj_position he _ _).mpr hadj⟩
  · intro hall k hik
    obtain ⟨j, rfl, hij⟩ := reachable_of_closed (fun i j => (adj_position he i j).mp)
      (h.closed hkeys he) hik
    exact (beats_position he i j).mpr (hall j hij)

end Positions

/-- The groups of a part that shares no task with the rest are groups of the whole. -/
theorem deduplicateMatches_part (h : Apart T ms part)
    (hkeys : (ms.map Match.patternKey).Nodup) :
    deduplicateMatches T part =
      (deduplicateMatches T ms).filter fun m => m.patternKey ∈ part.map Match.patternKey := by
  obtain ⟨e, he⟩ := List.sublist_iff_exists_fin_orderEmbedding_get_eq.mp h.sublist
  apply eq_of_sublist_of_mem_iff hkeys (deduplicateMatches_sublist.trans h.sublist)
    (List.filter_sublist.trans deduplicateMatches_sublist)
  intro m
  rw [List.mem_filter, deduplicateMatches, deduplicateMatches, List.mem_map, List.mem_map,
    decide_eq_true_eq]
  constructor
  · intro hm
    obtain ⟨i, hi, rfl⟩ := hm
    exact ⟨⟨e i, (h.mem_keptIndices hkeys he i).mpr hi, (he i).symm⟩,
      List.mem_map_of_mem (List.get_mem _ _)⟩
  · intro hm
    obtain ⟨⟨k, hk, rfl⟩, hkey⟩ := hm
    obtain ⟨i, rfl⟩ := exists_position hkeys he (h.mem_part hkeys (List.get_mem _ _) hkey)
    exact ⟨i, (h.mem_keptIndices hkeys he i).mp hk, he i⟩

theorem applyRecencyWeight_filter (weight halfLifeDays : ℚ) (keys : List Text) :
    applyRecencyWeight C weight halfLifeDays (ms.filter fun m => m.patternKey ∈ keys) =
      (applyRecencyWeight C weight halfLifeDays ms).filter fun m => m.patternKey ∈ keys := by
  unfold applyRecencyWeight
  split
  · rfl
  · rw [filter_sortedDesc, List.filter_map]
    rfl

variable (C ms) in
theorem keys_applyRecencyWeight (weight halfLifeDays : ℚ) :
    ((applyRecencyWeight C weight halfLifeDays ms).map Match.patternKey).Perm
      (ms.map Match.patternKey) := by
  unfold applyRecencyWeight
  split
  · exact List.Perm.refl _
  · have hperm := (sortedDesc_perm (fun m : Match => m.effectiveScore.getD 0)
      (ms.map (recencyWeighted C weight halfLifeDays))).map Match.patternKey
    rw [List.map_map] at hperm
    exact hperm

theorem mem_applyRecencyWeight {weight halfLifeDays : ℚ} {x : Match}
    (h : x ∈ applyRecencyWeight C weight halfLifeDays ms) :
    ∃ m ∈ ms, x.patternKey = m.patternKey ∧ x.pattern = m.pattern := by
  unfold applyRecencyWeight at h
  split at h
  · exact ⟨x, h, rfl, rfl⟩
  · obtain ⟨m, hm, rfl⟩ := List.mem_map.mp (mem_sortedDesc.mp h)
    exact ⟨m, hm, rfl, rfl⟩

theorem applyRecencyWeight_part (weight halfLifeDays : ℚ) (h : part.Sublist ms)
    (hkeys : (ms.map Match.patternKey).Nodup) :
    applyRecencyWeight C weight halfLifeDays part =
      (applyRecencyWeight C weight halfLifeDays ms).filter
        fun m => m.patternKey ∈ part.map Match.patternKey := by
  rw [← applyRecencyWeight_filter, ← sublist_eq_filter h hkeys]

theorem Apart.applyRecencyWeight (weight halfLifeDays : ℚ) (h : Apart T ms part)
    (hkeys : (ms.map Match.patternKey).Nodup) :
    Apart T (applyRecencyWeight C weight halfLifeDays ms)
      (applyRecencyWeight C weight halfLifeDays part) := by
  constructor
  · rw [applyRecencyWeight_part weight halfLifeDays h.sublist hkeys]
    exact List.filter_sublist
  · intro x hx hout y hy
    obtain ⟨m, hm, hkey, hpattern⟩ := mem_applyRecencyWeight hx
    obtain ⟨m', hm', _, hpattern'⟩ := mem_applyRecencyWeight hy
    rw [hpattern, hpattern']
    apply h.apart m hm _ m' hm'
    rw [← hkey]
    intro hin
    exact hout ((keys_applyRecencyWeight C part weight halfLifeDays).mem_iff.mpr hin)

/-- A part is arranged as it is within the whole, where groups do not reach out of it. -/
theorem arranged_part (h : part.Sublist ms) (hkeys : (ms.map Match.patternKey).Nodup)
    (hapart : q.deduplicate = true → Apart C.text ms part) :
    arranged C q part =
      (arranged C q ms).filter fun m => m.patternKey ∈ part.map Match.patternKey := by
  unfold arranged
  by_cases hgroups : q.deduplicate = true
  · simp only [if_pos hgroups]
    by_cases hrecent : 0 < q.recencyWeight
    · simp only [if_pos hrecent]
      have hperm := keys_applyRecencyWeight C part q.recencyWeight q.recencyHalfLifeDays
      have hkeys' := (keys_applyRecencyWeight C ms q.recencyWeight
        q.recencyHalfLifeDays).nodup_iff.mpr hkeys
      rw [deduplicateMatches_part ((hapart hgroups).applyRecencyWeight _ _ hkeys) hkeys']
      apply List.filter_congr
      intro m _
      simp only [hperm.mem_iff]
    · simp only [if_neg hrecent]
      exact deduplicateMatches_part (hapart hgroups) hkeys
  · simp only [if_neg hgroups]
    split
    · exact applyRecencyWeight_part _ _ h hkeys
    · exact sublist_eq_filter h hkeys

end Engramia.Recall
