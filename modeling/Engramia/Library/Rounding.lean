import Mathlib.Algebra.Order.Field.Basic
import Mathlib.Algebra.Order.Floor.Ring
import Mathlib.Tactic.Linarith

/-!
Rounding to a number of decimals, a half going to the even neighbour, over any ordered field
with a floor. Rounding is monotone, moves a number by at most half a unit of its last decimal
and leaves what is already rounded.
-/
namespace Engramia.Library

universe u
variable {K : Type u} [Field K] [LinearOrder K] [FloorRing K]

/-- The nearest integer, and the even one of two. -/
def roundHalfEven (x : K) : ℤ :=
  if x - ⌊x⌋ < 1 / 2 then ⌊x⌋
  else if 1 / 2 < x - ⌊x⌋ then ⌊x⌋ + 1
  else if ⌊x⌋ % 2 = 0 then ⌊x⌋ else ⌊x⌋ + 1

def roundTo (decimals : ℕ) (x : K) : K :=
  roundHalfEven (x * 10 ^ decimals) / 10 ^ decimals

/-- A number with no more than so many decimals. -/
def HasDecimals (decimals : ℕ) (x : K) : Prop :=
  ∃ n : ℤ, x = n / 10 ^ decimals

variable {x y lo hi : K} {decimals : ℕ}

theorem floor_le_roundHalfEven (x : K) : ⌊x⌋ ≤ roundHalfEven x := by
  rw [roundHalfEven]
  split
  · exact le_refl _
  · split
    · omega
    · split <;> omega

theorem roundHalfEven_le_floor (x : K) : roundHalfEven x ≤ ⌊x⌋ + 1 := by
  rw [roundHalfEven]
  split
  · omega
  · split
    · exact le_refl _
    · split <;> omega

theorem hasDecimals_roundTo (decimals : ℕ) (x : K) : HasDecimals decimals (roundTo decimals x) :=
  ⟨_, rfl⟩

variable [IsStrictOrderedRing K]

theorem roundHalfEven_intCast (n : ℤ) : roundHalfEven (n : K) = n := by
  have hhalf : (n : K) - ⌊(n : K)⌋ < 1 / 2 := by
    rw [Int.floor_intCast, sub_self]
    exact one_half_pos
  rw [roundHalfEven, if_pos hhalf, Int.floor_intCast]

/-- A half goes to the even neighbour. -/
theorem roundHalfEven_add_half {n : ℤ} (h : n % 2 = 0) :
    roundHalfEven ((n : K) + 1 / 2) = n := by
  have hhalf : (1 : K) / 2 < 1 := one_half_lt_one
  have hfloor : ⌊(n : K) + 1 / 2⌋ = n := by
    rw [Int.floor_eq_iff]
    have hpos : (0 : K) < 1 / 2 := one_half_pos
    constructor <;> linarith
  have htie : (n : K) + 1 / 2 - ⌊(n : K) + 1 / 2⌋ = 1 / 2 := by
    rw [hfloor, add_sub_cancel_left]
  rw [roundHalfEven, htie, if_neg (lt_irrefl _), if_neg (lt_irrefl _), hfloor, if_pos h]

theorem abs_roundHalfEven_sub_le (x : K) : |(roundHalfEven x : K) - x| ≤ 1 / 2 := by
  have hfloor := Int.floor_le x
  have hlt := Int.lt_floor_add_one x
  rw [roundHalfEven, abs_le]
  split
  next hlow =>
    constructor <;> linarith
  next hlow =>
    split
    next hhigh =>
      push_cast
      constructor <;> linarith
    next hhigh =>
      have heq : x - ⌊x⌋ = 1 / 2 := le_antisymm (not_lt.mp hhigh) (not_lt.mp hlow)
      split
      · constructor <;> linarith
      · push_cast
        constructor <;> linarith

theorem roundHalfEven_eq {n : ℤ} (h : |x - n| < 1 / 2) : roundHalfEven x = n := by
  have hround := abs_le.mp (abs_roundHalfEven_sub_le x)
  obtain ⟨hlow, hhigh⟩ := abs_lt.mp h
  have hbelow : ((n - 1 : ℤ) : K) < roundHalfEven x := by
    push_cast
    linarith [hround.1]
  have habove : (roundHalfEven x : K) < ((n + 1 : ℤ) : K) := by
    push_cast
    linarith [hround.2]
  have hlt := Int.cast_lt.mp hbelow
  have hgt := Int.cast_lt.mp habove
  omega

theorem roundHalfEven_mono (h : x ≤ y) : roundHalfEven x ≤ roundHalfEven y := by
  have hfloor : ⌊x⌋ ≤ ⌊y⌋ := Int.floor_mono h
  cases hfloor.lt_or_eq with
  | inl hlt =>
      have hx := roundHalfEven_le_floor x
      have hy := floor_le_roundHalfEven y
      omega
  | inr heq =>
      have hsub : x - (⌊y⌋ : K) ≤ y - ⌊y⌋ := sub_le_sub_right h _
      rw [roundHalfEven, roundHalfEven, heq]
      by_cases hylow : y - ⌊y⌋ < 1 / 2
      · rw [if_pos hylow, if_pos (hsub.trans_lt hylow)]
      · rw [if_neg hylow]
        by_cases hxhigh : 1 / 2 < x - (⌊y⌋ : K)
        · rw [if_neg hxhigh.not_gt, if_pos hxhigh, if_pos (hxhigh.trans_le hsub)]
        · rw [if_neg hxhigh]
          split <;> split <;> (try split) <;> omega

theorem ten_pow_pos (decimals : ℕ) : (0 : K) < 10 ^ decimals :=
  pow_pos (by norm_num) decimals

theorem roundTo_mono (decimals : ℕ) (h : x ≤ y) : roundTo decimals x ≤ roundTo decimals y := by
  have hpos := ten_pow_pos (K := K) decimals
  have hscaled : x * 10 ^ decimals ≤ y * 10 ^ decimals := mul_le_mul_of_nonneg_right h hpos.le
  exact div_le_div_of_nonneg_right (Int.cast_le.mpr (roundHalfEven_mono hscaled)) hpos.le

theorem HasDecimals.roundTo_eq (h : HasDecimals decimals x) : roundTo decimals x = x := by
  obtain ⟨n, rfl⟩ := h
  rw [roundTo, div_mul_cancel₀ _ (ten_pow_pos decimals).ne', roundHalfEven_intCast]

theorem hasDecimals_intCast (decimals : ℕ) (n : ℤ) : HasDecimals decimals (n : K) := by
  refine ⟨n * 10 ^ decimals, ?_⟩
  push_cast
  rw [mul_div_cancel_right₀ _ (ten_pow_pos decimals).ne']

theorem hasDecimals_zero (decimals : ℕ) : HasDecimals decimals (0 : K) :=
  mod_cast hasDecimals_intCast (K := K) decimals 0

theorem hasDecimals_one (decimals : ℕ) : HasDecimals decimals (1 : K) :=
  mod_cast hasDecimals_intCast (K := K) decimals 1

/-- Rounding keeps a bound that is itself rounded. -/
theorem le_roundTo (hlo : HasDecimals decimals lo) (h : lo ≤ x) : lo ≤ roundTo decimals x :=
  hlo.roundTo_eq.symm.le.trans (roundTo_mono decimals h)

theorem roundTo_le (hhi : HasDecimals decimals hi) (h : x ≤ hi) : roundTo decimals x ≤ hi :=
  (roundTo_mono decimals h).trans hhi.roundTo_eq.le

theorem abs_roundTo_sub_le (decimals : ℕ) (x : K) :
    |roundTo decimals x - x| ≤ 1 / 2 / 10 ^ decimals := by
  have hpos := ten_pow_pos (K := K) decimals
  have hdiff : roundTo decimals x - x =
      ((roundHalfEven (x * 10 ^ decimals) : K) - x * 10 ^ decimals) / 10 ^ decimals := by
    rw [roundTo, sub_div, mul_div_cancel_right₀ _ hpos.ne']
  rw [hdiff, abs_div, abs_of_pos hpos]
  exact div_le_div_of_nonneg_right (abs_roundHalfEven_sub_le _) hpos.le

end Engramia.Library
