import Mathlib.Data.List.Nodup

/-!
Where an element stands in a list, and what a part of a list that is as long as the list says.
-/
namespace Engramia.Library

variable {α β κ : Type}

/-- Where an element stands in a list with one more at the end. -/
theorem concat_eq_append_cons {xs earlier later : List α} {x b : α}
    (h : xs ++ [x] = earlier ++ b :: later) :
    (∃ later', xs = earlier ++ b :: later') ∨ xs = earlier ∧ x = b := by
  cases List.eq_nil_or_concat later with
  | inl hnil =>
      rw [hnil] at h
      obtain ⟨hinit, hlast⟩ := List.append_inj' h rfl
      exact .inr ⟨hinit, List.singleton_inj.mp hlast⟩
  | inr hconcat =>
      obtain ⟨later', y, hlater⟩ := hconcat
      rw [hlater, List.concat_eq_append, ← List.cons_append, ← List.append_assoc] at h
      exact .inl ⟨later', (List.append_inj' h rfl).1⟩

theorem length_filter_lt {l : List α} {p q : α → Bool} (h : ∀ x, p x = true → q x = true)
    {x : α} (hx : x ∈ l) (hq : q x = true) (hp : p x = false) :
    (l.filter p).length < (l.filter q).length := by
  have hboth : l.filter p = (l.filter q).filter p := by
    rw [List.filter_filter]
    congr 1
    funext y
    cases hy : p y with
    | false => rfl
    | true => rw [h y hy]; rfl
  rw [hboth]
  exact List.length_filter_lt_length_iff_exists.mpr
    ⟨x, List.mem_filter.mpr ⟨hx, hq⟩, by simp [hp]⟩

/-- A slice of a filtered list is the whole list. -/
theorem slice_eq_self_iff {p : α → Bool} {l : List α} {n m : ℕ} :
    ((l.filter p).drop n).take m = l ↔
      l = [] ∨ n = 0 ∧ l.length ≤ m ∧ ∀ a ∈ l, p a = true := by
  constructor
  · intro h
    have hlength := congrArg List.length h
    rw [List.length_take, List.length_drop] at hlength
    have hfilter := List.length_filter_le p l
    cases l with
    | nil => exact Or.inl rfl
    | cons a l =>
        have hpos : 0 < (a :: l).length := Nat.zero_lt_succ _
        have hall : ((a :: l).filter p).length = (a :: l).length := by omega
        refine Or.inr ⟨by omega, by omega, ?_⟩
        exact List.filter_eq_self.mp (List.filter_sublist.eq_of_length hall)
  · intro h
    cases h with
    | inl hnil =>
        rw [hnil, List.filter_nil, List.drop_nil, List.take_nil]
    | inr h =>
        obtain ⟨hn, hm, hall⟩ := h
        rw [List.filter_eq_self.mpr hall, hn, List.drop_zero, List.take_of_length_le hm]

theorem lookup_of_mem [BEq κ] [LawfulBEq κ] {key : α → κ} {f : α → β} {xs : List α} {x : α}
    (hnodup : (xs.map key).Nodup) (hx : x ∈ xs) :
    (xs.map fun y => (key y, f y)).lookup (key x) = some (f x) := by
  induction xs with
  | nil => cases hx
  | cons y xs ih =>
      rw [List.map_cons, List.nodup_cons] at hnodup
      rw [List.map_cons, List.lookup_cons]
      cases hx with
      | head => simp
      | tail _ hx =>
          have hne : key x ≠ key y := by
            intro hkey
            exact hnodup.1 (hkey ▸ List.mem_map_of_mem hx)
          rw [beq_eq_false_iff_ne.mpr hne]
          exact ih hnodup.2 hx

theorem infix_intercalate {sep x : List α} {xs : List (List α)} (h : x ∈ xs) :
    x <:+: sep.intercalate xs := by
  induction xs with
  | nil => cases h
  | cons y ys ih =>
      cases ys with
      | nil =>
          exact ⟨[], [], by rw [List.nil_append, List.append_nil, List.mem_singleton.mp h,
            List.intercalate_singleton]⟩
      | cons z zs =>
          rw [List.intercalate_cons_cons]
          cases List.mem_cons.mp h with
          | inl heq =>
              rw [heq, List.append_assoc]
              exact (List.prefix_append _ _).isInfix
          | inr hmem => exact (ih hmem).trans (List.suffix_append _ _).isInfix

end Engramia.Library
