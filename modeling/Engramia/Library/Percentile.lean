import Engramia.Library.Rounding
import Mathlib.Algebra.BigOperators.Group.List.Basic
import Mathlib.Algebra.Order.Floor.Semiring
import Mathlib.Data.List.Sort
import Mathlib.Tactic.NormNum

/-!
Mean, median and nearest-rank percentiles of a list of numbers. Each lies between the smallest
and the largest number, and none depends on the order of the list.
-/
namespace Engramia.Library

universe u
variable {K : Type u} [LinearOrder K]

/-- Two numbers that bound a list. -/
def Bounds (xs : List K) (lo hi : K) : Prop := ∀ x ∈ xs, lo ≤ x ∧ x ≤ hi

def ascending (xs : List K) : List K := xs.insertionSort (· ≤ ·)

local instance atLeastTwo_two : Nat.AtLeastTwo 2 := ⟨by decide⟩

/-- `statistics.median` of sorted data. -/
def medianOf [Field K] (data : List K) : Option K :=
  if data.length % 2 = 1 then data[data.length / 2]?
  else do
    let low ← data[data.length / 2 - 1]?
    let high ← data[data.length / 2]?
    return (low + high) / 2

section Order
variable {xs ys : List K} {lo hi : K}

theorem perm_ascending (xs : List K) : (ascending xs).Perm xs := List.perm_insertionSort _ xs

theorem pairwise_ascending (xs : List K) : (ascending xs).Pairwise (· ≤ ·) :=
  List.pairwise_insertionSort _ xs

theorem length_ascending (xs : List K) : (ascending xs).length = xs.length :=
  (perm_ascending xs).length_eq

theorem ascending_congr (h : xs.Perm ys) : ascending xs = ascending ys :=
  (((perm_ascending xs).trans h).trans (perm_ascending ys).symm).eq_of_pairwise'
    (pairwise_ascending xs) (pairwise_ascending ys)

theorem Bounds.ascending (h : Bounds xs lo hi) : Bounds (ascending xs) lo hi :=
  fun x hx => h x ((perm_ascending xs).mem_iff.mp hx)

theorem Bounds.getElem (h : Bounds xs lo hi) {i : ℕ} (hi' : i < xs.length) :
    lo ≤ xs[i] ∧ xs[i] ≤ hi :=
  h _ (List.getElem_mem hi')

theorem ascending_mono {i j : ℕ} (hij : i ≤ j) (hj : j < (ascending xs).length) :
    (ascending xs)[i] ≤ (ascending xs)[j] := by
  cases Nat.lt_or_eq_of_le hij with
  | inl hlt => exact List.pairwise_iff_getElem.mp (pairwise_ascending xs) i j _ hj hlt
  | inr heq =>
      subst heq
      exact le_refl _

end Order

section Bounded
variable [Field K] [IsStrictOrderedRing K] {xs : List K} {lo hi : K}

theorem Bounds.sum (h : Bounds xs lo hi) : xs.length * lo ≤ xs.sum ∧ xs.sum ≤ xs.length * hi := by
  induction xs with
  | nil => simp
  | cons x xs ih =>
      obtain ⟨hx, hxs⟩ := List.forall_mem_cons.mp h
      obtain ⟨hlow, hhigh⟩ := ih hxs
      rw [List.sum_cons, List.length_cons, Nat.cast_succ, add_mul, add_mul, one_mul, one_mul]
      constructor <;> linarith

theorem Bounds.mean (h : Bounds xs lo hi) (hxs : xs ≠ []) :
    lo ≤ xs.sum / xs.length ∧ xs.sum / xs.length ≤ hi := by
  have hpos : (0 : K) < xs.length := Nat.cast_pos.mpr (List.length_pos_iff.mpr hxs)
  obtain ⟨hlow, hhigh⟩ := h.sum
  rw [le_div_iff₀ hpos, div_le_iff₀ hpos]
  constructor <;> linarith

/-- The median of data that is not empty is at most what stands at any later index. -/
theorem medianOf_spec (hxs : xs ≠ []) :
    ∃ m, medianOf (ascending xs) = some m ∧ (∀ lo hi, Bounds xs lo hi → lo ≤ m ∧ m ≤ hi) ∧
      ∀ j (hj : j < (ascending xs).length), (ascending xs).length / 2 ≤ j →
        m ≤ (ascending xs)[j] := by
  have hlength : 0 < (ascending xs).length := by
    rw [length_ascending]
    exact List.length_pos_iff.mpr hxs
  have hmiddle : (ascending xs).length / 2 < (ascending xs).length := by omega
  by_cases hodd : (ascending xs).length % 2 = 1
  · refine ⟨(ascending xs)[(ascending xs).length / 2], ?_, ?_, ?_⟩
    · rw [medianOf, if_pos hodd, List.getElem?_eq_getElem hmiddle]
    · intro lo hi h
      exact h.ascending.getElem hmiddle
    · intro j hj hle
      exact ascending_mono hle hj
  · have hbelow : (ascending xs).length / 2 - 1 < (ascending xs).length := by omega
    have hstep := ascending_mono (Nat.sub_le ((ascending xs).length / 2) 1) hmiddle
    refine ⟨((ascending xs)[(ascending xs).length / 2 - 1] +
      (ascending xs)[(ascending xs).length / 2]) / 2, ?_, ?_, ?_⟩
    · rw [medianOf, if_neg hodd, List.getElem?_eq_getElem hmiddle,
        List.getElem?_eq_getElem hbelow]
      rfl
    · intro lo hi h
      obtain ⟨hlow, hhigh⟩ := h.ascending.getElem hbelow
      obtain ⟨hlow', hhigh'⟩ := h.ascending.getElem hmiddle
      constructor <;> linarith
    · intro j hj hle
      have hlater := ascending_mono hle hj
      linarith

end Bounded

section Rank
variable [Field K] [FloorRing K]

/-- The index of the nearest rank of a percentile. -/
def rankIndex (p : K) (n : ℕ) : ℕ := max 1 ⌈p * n⌉₊ - 1

variable [IsStrictOrderedRing K] {p : K} {n : ℕ}

theorem rankIndex_lt (hp : p ≤ 1) (hn : 0 < n) : rankIndex p n < n := by
  have hceil : ⌈p * n⌉₊ ≤ n := by
    rw [Nat.ceil_le]
    exact mul_le_of_le_one_left (Nat.cast_nonneg n) hp
  rw [rankIndex]
  omega

theorem middle_le_rankIndex (hp : 1 / 2 < p) (hn : 0 < n) :
    n / 2 ≤ rankIndex p n := by
  have hn' : (0 : K) < n := Nat.cast_pos.mpr hn
  have hdouble : ((n / 2 : ℕ) : K) * 2 ≤ n := by exact_mod_cast Nat.div_mul_le_self n 2
  have hlt : ((n / 2 : ℕ) : K) < p * n := by
    have hhalf := mul_lt_mul_of_pos_right hp hn'
    linarith
  have hceil := Nat.lt_ceil.mpr hlt
  rw [rankIndex]
  omega

end Rank

end Engramia.Library
