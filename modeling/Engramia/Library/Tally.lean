import Mathlib.Data.List.Basic

/-!
What a list holds and how many of its items satisfy a test, when one item is replaced or
some are added.
-/
namespace Engramia.Library

universe u
variable {α : Type u} {p : α → Bool} {l : List α} {i j : Nat} {x y : α}

theorem countP_pos_of_getElem? (h : l[i]? = some x) (hx : p x = true) : 0 < l.countP p :=
  List.countP_pos_iff.mpr ⟨x, List.mem_of_getElem? h, hx⟩

theorem countP_set_of_eq (h : l[i]? = some x) (hy : p y = p x) :
    (l.set i y).countP p = l.countP p := by
  obtain ⟨hlt, hget⟩ := List.getElem?_eq_some_iff.mp h
  rw [List.countP_set hlt, hget, hy]
  cases hx : p x with
  | true =>
      have hpos := countP_pos_of_getElem? h hx
      rw [if_pos rfl]
      omega
  | false => rfl

/-- One item fewer. -/
theorem countP_set_add_one (h : l[i]? = some x) (hx : p x = true) (hy : p y = false) :
    (l.set i y).countP p + 1 = l.countP p := by
  obtain ⟨hlt, hget⟩ := List.getElem?_eq_some_iff.mp h
  have hpos := countP_pos_of_getElem? h hx
  rw [List.countP_set hlt, hget, hx, hy, if_pos rfl, if_neg Bool.false_ne_true]
  omega

/-- One item more. -/
theorem countP_set_of_new (h : l[i]? = some x) (hx : p x = false) (hy : p y = true) :
    (l.set i y).countP p = l.countP p + 1 := by
  obtain ⟨hlt, hget⟩ := List.getElem?_eq_some_iff.mp h
  rw [List.countP_set hlt, hget, hx, hy, if_neg Bool.false_ne_true, if_pos rfl]
  omega

theorem countP_set_toNat (h : l[i]? = some x) (p : α → Bool) (y : α) :
    (l.set i y).countP p + (p x).toNat = l.countP p + (p y).toNat := by
  obtain ⟨hlt, hget⟩ := List.getElem?_eq_some_iff.mp h
  rw [List.countP_set hlt, hget]
  cases hx : p x with
  | true =>
      have hpos := countP_pos_of_getElem? h hx
      cases p y <;> simp <;> omega
  | false => cases p y <;> simp

theorem countP_split (p q : α → Bool) (l : List α) :
    l.countP p = l.countP (fun x => p x && q x) + l.countP fun x => p x && !q x := by
  induction l with
  | nil => rfl
  | cons x l ih =>
      rw [List.countP_cons, List.countP_cons, List.countP_cons, ih]
      cases p x with
      | true =>
          cases q x with
          | true => simp; omega
          | false => simp; omega
      | false => simp

theorem countP_concat (p : α → Bool) (l : List α) (x : α) :
    (l ++ [x]).countP p = l.countP p + if p x then 1 else 0 := by
  rw [List.countP_append, List.countP_singleton]

theorem forall_mem_set {P : α → Prop} (h : ∀ x ∈ l, P x) (hy : P y) : ∀ x ∈ l.set i y, P x := by
  intro x hx
  cases List.mem_or_eq_of_mem_set hx with
  | inl hold => exact h x hold
  | inr hnew => rwa [hnew]

theorem forall_mem_append_singleton {P : α → Prop} (h : ∀ x ∈ l, P x) (hy : P y) :
    ∀ x ∈ l ++ [y], P x := by
  intro x hx
  cases List.mem_append.mp hx with
  | inl hold => exact h x hold
  | inr hnew => rwa [List.mem_singleton.mp hnew]

theorem getElem?_append_of_some (h : l[i]? = some x) (l' : List α) : (l ++ l')[i]? = some x := by
  have hi : i < l.length := (List.getElem?_eq_some_iff.mp h).1
  rw [List.getElem?_append_left hi, h]

theorem getElem?_concat_cases (h : (l ++ [y])[i]? = some x) :
    l[i]? = some x ∨ i = l.length ∧ x = y := by
  by_cases hi : i < l.length
  · rw [List.getElem?_append_left hi] at h
    exact .inl h
  · rw [List.getElem?_append_right (Nat.le_of_not_lt hi), List.getElem?_singleton] at h
    by_cases hzero : i - l.length = 0
    · rw [if_pos hzero] at h
      exact .inr ⟨by omega, (Option.some.inj h).symm⟩
    · rw [if_neg hzero] at h
      cases h

theorem modify_eq_set (h : l[i]? = some x) (f : α → α) : l.modify i f = l.set i (f x) := by
  apply List.ext_getElem?
  intro j
  rw [List.getElem?_modify]
  by_cases hj : i = j
  · rw [← hj, List.getElem?_set_self (List.getElem?_eq_some_iff.mp h).1, h]
    simp
  · rw [List.getElem?_set_ne hj]
    simp [hj]

theorem getElem?_set_cases (h : (l.set i y)[j]? = some x) :
    j ≠ i ∧ l[j]? = some x ∨ j = i ∧ x = y := by
  by_cases hj : i = j
  · rw [hj, List.getElem?_set_self'] at h
    cases hget : l[j]? with
    | none => simp [hget] at h
    | some z =>
        rw [hget] at h
        exact .inr ⟨hj.symm, (Option.some.inj h).symm⟩
  · rw [List.getElem?_set_ne hj] at h
    exact .inl ⟨Ne.symm hj, h⟩

end Engramia.Library
