import Engramia.Storage.Paths
import Mathlib.Data.Finset.Card
import Mathlib.Data.Finset.Lattice.Lemmas
import Mathlib.Algebra.Order.Field.Rat
import Mathlib.Tactic.Linarith
import Mathlib.Tactic.NormNum

/-!
Word-level Jaccard similarity of two tasks and the threshold of duplicates. The
quotient is compared exactly: the nearest floats compare the same way for texts
of fewer than a hundred trillion words.
-/
namespace Engramia.Patterns
open Engramia.Library Engramia.Storage

/-- `str.lower`, and the characters `str.split` splits at. -/
structure TextMethods where
  lower : Text → Text
  isspace : Char → Bool

variable (T : TextMethods)

def split (isspace : Char → Bool) (text : Text) : List Text :=
  (text.splitOnP isspace).filter (· ≠ [])

def words (text : Text) : Finset Text :=
  (split T.isspace (T.lower text)).toFinset

def jaccard (a b : Text) : ℚ :=
  let wa := words T a
  let wb := words T b
  if wa = ∅ ∨ wb = ∅ then 0 else (wa ∩ wb).card / (wa ∪ wb).card

/-- `JACCARD_LEARN_DEDUP_THRESHOLD` -/
def jaccardLearnDedupThreshold : ℚ := 92 / 100

def Duplicate (a b : Text) : Prop :=
  jaccardLearnDedupThreshold ≤ jaccard T a b

theorem jaccard_comm (a b : Text) : jaccard T a b = jaccard T b a := by
  rw [jaccard, jaccard, Finset.inter_comm, Finset.union_comm]
  simp only [or_comm]

variable {T} {a b : Text}

theorem duplicate_iff :
    Duplicate T a b ↔ words T a ≠ ∅ ∧ words T b ≠ ∅ ∧
      23 * (words T a ∪ words T b).card ≤ 25 * (words T a ∩ words T b).card := by
  rw [Duplicate, jaccardLearnDedupThreshold, jaccard]
  by_cases ha : words T a = ∅
  · simp only [ha, true_or, if_true]
    norm_num
  · by_cases hb : words T b = ∅
    · simp only [hb, or_true, if_true]
      norm_num
    · have hpos : (0 : ℚ) < (words T a ∪ words T b).card := by
        rw [Nat.cast_pos, Finset.card_pos]
        exact (Finset.nonempty_iff_ne_empty.mpr ha).mono Finset.subset_union_left
      simp only [ha, hb, or_self, if_false]
      rw [le_div_iff₀ hpos, ← Nat.cast_le (α := ℚ)]
      push_cast
      constructor
      · intro h
        exact ⟨ha, hb, by linarith⟩
      · intro h
        linarith [h.2.2]

instance : Decidable (Duplicate T a b) :=
  decidable_of_iff _ duplicate_iff.symm

theorem Duplicate.symm (h : Duplicate T a b) : Duplicate T b a := by
  rw [duplicate_iff, Finset.union_comm, Finset.inter_comm]
  obtain ⟨ha, hb, hcard⟩ := duplicate_iff.mp h
  exact ⟨hb, ha, hcard⟩

theorem duplicate_self : Duplicate T a a ↔ words T a ≠ ∅ := by
  rw [duplicate_iff, Finset.union_self, Finset.inter_self]
  constructor
  · intro h
    exact h.1
  · intro h
    exact ⟨h, h, Nat.mul_le_mul_right _ (by decide)⟩

/-- ASCII letters, and words between blanks. -/
def asciiText : TextMethods where
  lower text := text.map Char.toLower
  isspace ch := ch = ' '

end Engramia.Patterns
