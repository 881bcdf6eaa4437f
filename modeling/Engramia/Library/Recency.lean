import Engramia.Library.OrderedDict
import Mathlib.Data.List.Dedup

/-!
Recency of use. In a sequence of uses the last use of every key gives their order, the least
recent first. A dictionary that makes every key it uses the newest entry keeps its keys in that
order, whatever else it drops, and so evicts the key that was used least recently.
-/
namespace Engramia.Library

universe u v
variable {κ : Type u} {ν : Type v} [DecidableEq κ]

omit [DecidableEq κ] in
/-- After its last use of `a` the trace uses `b`. -/
def UsedSince (trace : List κ) (a b : κ) : Prop :=
  ∃ earlier later, trace = earlier ++ a :: later ∧ a ∉ later ∧ b ∈ later

/-- The keys of a dictionary in the order of their last uses. -/
def OrderedDict.ByRecency (d : OrderedDict κ ν) (trace : List κ) : Prop :=
  (d.entries.map Prod.fst).Sublist trace.dedup

theorem dedup_concat (trace : List κ) (k : κ) :
    (trace ++ [k]).dedup = trace.dedup.filter (fun x => x ≠ k) ++ [k] := by
  induction trace with
  | nil => rfl
  | cons a trace ih =>
      rw [List.cons_append, List.dedup_cons, List.dedup_cons, ih]
      by_cases hk : a = k
      · by_cases hmem : a ∈ trace
        · simp [hk, hk ▸ hmem]
        · simp [hk, hk ▸ hmem]
      · by_cases hmem : a ∈ trace
        · simp [hk, hmem]
        · simp [hk, hmem]

theorem usedSince_of_sublist {trace : List κ} {a b : κ} (h : [a, b].Sublist trace.dedup) :
    UsedSince trace a b := by
  induction trace with
  | nil => cases h
  | cons x trace ih =>
      rw [List.dedup_cons] at h
      by_cases hmem : x ∈ trace
      · rw [if_pos hmem] at h
        obtain ⟨earlier, later, htrace, hlast, hb⟩ := ih h
        exact ⟨x :: earlier, later, by rw [htrace, List.cons_append], hlast, hb⟩
      · rw [if_neg hmem] at h
        cases h with
        | cons _ h =>
            obtain ⟨earlier, later, htrace, hlast, hb⟩ := ih h
            exact ⟨x :: earlier, later, by rw [htrace, List.cons_append], hlast, hb⟩
        | cons_cons _ h =>
            have hb : b ∈ trace := List.mem_dedup.mp (h.subset List.mem_cons_self)
            exact ⟨[], trace, rfl, hmem, hb⟩

namespace OrderedDict
variable {d : OrderedDict κ ν} {trace : List κ} {k : κ} {v : ν} {max : Nat}

theorem ByRecency.empty : (empty : OrderedDict κ ν).ByRecency trace :=
  List.nil_sublist _

theorem ByRecency.discard (h : d.ByRecency trace) (p : κ → Bool) :
    (d.discard p).ByRecency trace :=
  (List.filter_sublist.map _).trans h

/-- The keys after a key was made the newest, before any of them is evicted. -/
def renewed (d : OrderedDict κ ν) (k : κ) : List κ :=
  (d.entries.map Prod.fst).filter (fun x => x ≠ k) ++ [k]

theorem keys_put : (d.put max k v).entries.map Prod.fst =
    (d.renewed k).drop ((d.renewed k).length - max) := by
  have hkeys : ((d.discard (· = k)).entries ++ [(k, v)]).map Prod.fst = d.renewed k := by
    rw [List.map_append, OrderedDict.discard, renewed, List.filter_map]
    congr 2
    apply List.filter_congr
    intro x _
    exact decide_not.symm
  rw [← hkeys, OrderedDict.put, List.map_drop, List.length_map]

theorem mem_renewed {a : κ} (ha : a ∈ d.entries.map Prod.fst) : a ∈ d.renewed k := by
  rw [renewed, List.mem_append, List.mem_filter, List.mem_singleton]
  by_cases hk : a = k
  · exact .inr hk
  · exact .inl ⟨ha, decide_eq_true hk⟩

theorem length_renewed (hk : k ∈ d.entries.map Prod.fst) :
    (d.renewed k).length ≤ d.entries.length := by
  have hlt : ((d.entries.map Prod.fst).filter (fun x => x ≠ k)).length <
      (d.entries.map Prod.fst).length :=
    List.length_filter_lt_length_iff_exists.mpr ⟨k, hk, by simp⟩
  rw [List.length_map] at hlt
  rw [renewed, List.length_append, List.length_singleton]
  exact hlt

theorem renewed_of_new (hk : k ∉ d.entries.map Prod.fst) :
    d.renewed k = d.entries.map Prod.fst ++ [k] := by
  rw [renewed, List.filter_eq_self.mpr]
  intro x hx
  exact decide_eq_true fun heq => hk (heq ▸ hx)

theorem ByRecency.put (h : d.ByRecency trace) : (d.put max k v).ByRecency (trace ++ [k]) := by
  rw [ByRecency, keys_put, dedup_concat]
  exact (List.drop_sublist _ _).trans ((h.filter _).append (List.Sublist.refl _))

theorem ByRecency.moveToEnd (h : d.ByRecency trace) (hk : d.get? k = some v) :
    (d.moveToEnd k).ByRecency (trace ++ [k]) := by
  rw [OrderedDict.moveToEnd, hk]
  exact h.put

theorem mem_put_cases {x : κ × ν} (h : x ∈ (d.put max k v).entries) :
    x ∈ d.entries ∧ x.1 ≠ k ∨ x = (k, v) := by
  cases List.mem_append.mp (List.mem_of_mem_drop h) with
  | inl hold =>
      have hkept := mem_discard.mp hold
      exact .inl ⟨hkept.1, of_decide_eq_false hkept.2⟩
  | inr hnew => exact .inr (List.mem_singleton.mp hnew)

theorem length_put_le : (d.put max k v).entries.length ≤ max := by
  rw [← List.length_map Prod.fst, keys_put, List.length_drop]
  omega

/-- What `put` evicts from a dictionary within its bound is the least recently used key, and
only where the key is new and the dictionary full. -/
theorem ByRecency.put_evicts (h : d.ByRecency trace) (hlen : d.entries.length ≤ max) {a : κ}
    (ha : a ∈ d.entries.map Prod.fst) (hgone : a ∉ (d.put max k v).entries.map Prod.fst) :
    d.entries.length = max ∧ k ∉ d.entries.map Prod.fst ∧
      ∀ b ∈ d.entries.map Prod.fst, b ≠ a →
        b ∈ (d.put max k v).entries.map Prod.fst ∧ UsedSince trace a b := by
  rw [keys_put] at hgone ⊢
  have hover : max < (d.renewed k).length := by
    apply Nat.lt_of_not_le
    intro hfits
    rw [Nat.sub_eq_zero_of_le hfits, List.drop_zero] at hgone
    exact hgone (mem_renewed ha)
  have hnew : k ∉ d.entries.map Prod.fst := fun hk =>
    Nat.not_lt.mpr (Nat.le_trans (length_renewed hk) hlen) hover
  rw [renewed_of_new hnew, List.length_append, List.length_map, List.length_singleton] at hover
  have hfull : d.entries.length = max := by omega
  refine ⟨hfull, hnew, ?_⟩
  rw [renewed_of_new hnew, List.length_append, List.length_map, hfull, List.length_singleton,
    Nat.add_sub_cancel_left] at hgone ⊢
  rw [ByRecency] at h
  cases hkeys : d.entries.map Prod.fst with
  | nil =>
      rw [hkeys] at ha
      cases ha
  | cons x rest =>
      rw [hkeys] at ha hgone h
      intro b hb hne
      rw [List.cons_append, List.drop_one, List.tail_cons] at hgone ⊢
      have hx : a = x := by
        cases List.mem_cons.mp ha with
        | inl hx => exact hx
        | inr hrest => exact absurd (List.mem_append_left _ hrest) hgone
      subst hx
      have hrest : b ∈ rest := by
        cases List.mem_cons.mp hb with
        | inl hb => exact absurd hb hne
        | inr hrest => exact hrest
      refine ⟨List.mem_append_left _ hrest, usedSince_of_sublist (List.Sublist.trans ?_ h)⟩
      exact (List.singleton_sublist.mpr hrest).cons_cons a

end OrderedDict

end Engramia.Library
