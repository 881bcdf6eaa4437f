import Mathlib.Algebra.Group.Nat.Defs

/-!
Rounding of natural numbers to the 53 bits of a double. A double that is a fraction is taken as
its numerator over a power of two, which rounding commutes with. A number moves by at most half
of the last place that is kept, and one of no more than 53 bits does not move.
-/
namespace Engramia.Library

section Rounding
variable {n d k : ℕ}

/-- The quotient to the nearest natural number, and the even one of two. -/
def halfEven (n d : ℕ) : ℕ :=
  if 2 * (n % d) < d then n / d
  else if d < 2 * (n % d) then n / d + 1
  else if n / d % 2 = 0 then n / d else n / d + 1

/-- The places of a number that a double does not keep. -/
def excess (n : ℕ) : ℕ := n.log2 - 52

def toDouble (n : ℕ) : ℕ := halfEven n (2 ^ excess n) * 2 ^ excess n

theorem halfEven_le (n d : ℕ) : 2 * (halfEven n d * d) ≤ 2 * n + d := by
  have hn := Nat.div_add_mod' n d
  rw [halfEven]
  split
  · omega
  · split
    · rw [Nat.add_mul]
      omega
    · split
      · omega
      · rw [Nat.add_mul]
        omega

theorem le_halfEven (n d : ℕ) (hd : 0 < d) : 2 * n ≤ 2 * (halfEven n d * d) + d := by
  have hn := Nat.div_add_mod' n d
  have hrest := Nat.mod_lt n hd
  rw [halfEven]
  split
  · omega
  · split
    · rw [Nat.add_mul]
      omega
    · split
      · omega
      · rw [Nat.add_mul]
        omega

theorem le_halfEven_of_near (hd : 0 < d) (hnear : 2 * (k * d) < 2 * n + d) :
    k ≤ halfEven n d := by
  apply Nat.le_of_not_lt
  intro hlt
  have hmul : (halfEven n d + 1) * d ≤ k * d := Nat.mul_le_mul_right d hlt
  have hlow := le_halfEven n d hd
  rw [Nat.add_mul] at hmul
  omega

theorem excess_pos (n : ℕ) : 0 < 2 ^ excess n := Nat.two_pow_pos _

theorem excess_bounds (h : n ≠ 0) :
    n < 2 ^ excess n * 2 ^ 53 ∧ (excess n = 0 ∨ 2 ^ excess n * 2 ^ 52 ≤ n) := by
  rw [excess, ← Nat.pow_add, ← Nat.pow_add]
  constructor
  · exact (Nat.log2_lt h).mp (by omega)
  · by_cases hfew : n.log2 ≤ 52
    · exact .inl (Nat.sub_eq_zero_of_le hfew)
    · exact .inr ((Nat.le_log2 h).mp (by omega))

theorem toDouble_le (n : ℕ) : 2 * toDouble n ≤ 2 * n + 2 ^ excess n := halfEven_le n _

theorem le_toDouble (h : 2 * (k * 2 ^ excess n) < 2 * n + 2 ^ excess n) :
    k * 2 ^ excess n ≤ toDouble n :=
  Nat.mul_le_mul_right _ (le_halfEven_of_near (excess_pos n) h)

theorem toDouble_of_lt (h : n < 2 ^ 53) : toDouble n = n := by
  have hexcess : excess n = 0 := by
    by_cases hzero : n = 0
    · rw [hzero]
      rfl
    · have hlog := (Nat.log2_lt hzero).mpr h
      rw [excess]
      omega
  rw [toDouble, hexcess, Nat.pow_zero, Nat.mul_one, halfEven, Nat.mod_one, Nat.div_one]
  rfl

end Rounding

/-- The finite doubles end here. -/
def doubleBound : ℕ := 2 ^ 1024

/-- `float(n)`, which raises `OverflowError` for a number that is too large. -/
def floatOf (n : ℕ) : Option ℕ := if toDouble n < doubleBound then some (toDouble n) else none

theorem two_pow_le_bound {k : ℕ} (h : k ≤ 1024) : 2 ^ k ≤ doubleBound := by
  have hpow : ∀ m, k ≤ m → 2 ^ k ≤ 2 ^ m := fun m hm => Nat.pow_le_pow_right (by decide) hm
  exact hpow 1024 h

theorem floatOf_of_lt {n : ℕ} (h : n < 2 ^ 53) : floatOf n = some n := by
  have hbound : 2 ^ 53 ≤ doubleBound := two_pow_le_bound (by decide)
  rw [floatOf, toDouble_of_lt h, if_pos (Nat.lt_of_lt_of_le h hbound)]

end Engramia.Library
