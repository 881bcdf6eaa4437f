import Engramia.Library.Placeholder
import Engramia.Storage.Paths
import Mathlib.Data.Char

/-!
The two expressions of the audit scrubber and its substitutions. Addresses of both kinds end with
a letter or a digit at a word boundary, so the placeholder of one neither completes another nor
hides one.
-/
namespace Engramia.Governance
open Engramia.Library Engramia.Library.Regex Engramia.Storage

/-- The classes of characters of the engine. Outside ASCII they follow the Unicode database. -/
structure UnicodeClasses where
  word : Char → Bool
  digit : Char → Bool
  word_of_digit : ∀ ch, digit ch = true → word ch = true
  ascii_word : ∀ ch : Char, ch.toNat < 128 → word ch = (ch.isAlphanum || ch == '_')
  ascii_digit : ∀ ch : Char, ch.toNat < 128 → digit ch = ch.isDigit

section Definitions
variable (U : UnicodeClasses)

def oneOf (chars : List Char) (ch : Char) : Bool :=
  chars.any (· == ch)

/-- `_EMAIL_RE` -/
def emailRe : Regex Char :=
  bounded U.word
    (concat
      [many (fun ch => ch.isAlphanum || oneOf ['.', '_', '%', '+', '-'] ch) 1, char (· == '@'),
        many (fun ch => ch.isAlphanum || oneOf ['.', '-'] ch) 1, char (· == '.')])
    (many Char.isAlpha 2)

/-- `\d{1,3}` -/
def upToThreeDigits : Regex Char :=
  rep (char U.digit) 1 2

/-- `_IP_RE` -/
def ipRe : Regex Char :=
  bounded U.word (rep (concat [upToThreeDigits U, char (· == '.')]) 3 0) (upToThreeDigits U)

/-- `_REDACTED` -/
def redacted : Text :=
  "[REDACTED]".toList

/-- The case of a text in `_scrub_value`. -/
def scrubText (text : Text) : Text :=
  sub (ipRe U) redacted (sub (emailRe U) redacted text)

/-- Neither an e-mail nor an IP address is found in a text. -/
def Unmatched (text : Text) : Prop :=
  (emailRe U).Clean text ∧ (ipRe U).Clean text

end Definitions

section Patterns
variable (U : UnicodeClasses)

def placeholder : Placeholder U.word where
  opening := '['
  letters := "REDACTED".toList
  closing := ']'
  openingApart := U.ascii_word '[' (by decide)
  closingApart := U.ascii_word ']' (by decide)

/-- Capital letters weigh nothing. -/
def apartFromCapitals (ch : Char) : ℕ :=
  if ch.isUpper then 0 else 1

theorem letters_weightless : weight apartFromCapitals (placeholder U).letters < 1 := by
  show weight apartFromCapitals "REDACTED".toList < 1
  decide

theorem isUpper_eq (ch : Char) : ch.isUpper = decide (ch.val ≥ 'A'.val ∧ ch.val ≤ 'Z'.val) := rfl

theorem isLower_eq (ch : Char) :
    ch.isLower = (decide (ch.val ≥ 'a'.val) && decide (ch.val ≤ 'z'.val)) := rfl

theorem isAlphanum_eq (ch : Char) :
    ch.isAlphanum = (ch.isUpper || ch.isLower || ch.isDigit) := rfl

theorem isAlphanum_ascii {ch : Char} (h : ch.isAlphanum = true) : ch.toNat < 128 := by
  simp only [isAlphanum_eq, isUpper_eq, isLower_eq, Char.isDigit, Bool.or_eq_true,
    Bool.and_eq_true, decide_eq_true_eq, ge_iff_le, UInt32.le_iff_toNat_le] at h
  have hval : ch.toNat = ch.val.toNat := rfl
  have hdigit : '9'.val.toNat = 57 := rfl
  have hupper : 'Z'.val.toNat = 90 := rfl
  have hlower : 'z'.val.toNat = 122 := rfl
  omega

theorem isAlpha_word {ch : Char} (h : ch.isAlpha = true) : U.word ch = true := by
  have halphanum : ch.isAlphanum = true := by rw [Char.isAlphanum, h, Bool.true_or]
  rw [U.ascii_word ch (isAlphanum_ascii halphanum), halphanum, Bool.true_or]

theorem ne_bracket {p : Char → Bool} (hopening : p '[' = false) (hclosing : p ']' = false) :
    ∀ ch, p ch = true → ch ≠ '[' ∧ ch ≠ ']' := by
  intro ch h
  constructor
  · intro heq
    rw [heq, hopening] at h
    cases h
  · intro heq
    rw [heq, hclosing] at h
    cases h

theorem emailRe_framed : Framed (placeholder U) (emailRe U) := by
  apply framed_bounded
  · exact (WeighsAtLeast.many (k := 1) (fun _ _ => le_refl 1) 2).mono (by decide)
  · exact fun ch hch => isAlpha_word U hch
  · exact fun _ _ => ⟨⟨trivial, trivial, trivial, trivial, trivial⟩, trivial⟩
  · refine ⟨⟨ne_bracket (by decide) (by decide), ne_bracket (by decide) (by decide),
      ne_bracket (by decide) (by decide), ne_bracket (by decide) (by decide), trivial⟩,
      apartFromCapitals, 1, ?_, letters_weightless U⟩
    have hat : (char (· == '@')).WeighsAtLeast apartFromCapitals 1 := by
      apply WeighsAtLeast.char
      intro ch hch
      rw [beq_iff_eq.mp hch]
      decide
    exact ((WeighsAtLeast.zero _ _).seq (hat.seq (WeighsAtLeast.zero _ _))).mono (by decide)

theorem upToThreeDigits_consuming : (upToThreeDigits U).Consuming :=
  (WeighsAtLeast.char fun _ _ => le_refl 1).rep 1 2

theorem ipRe_framed : Framed (placeholder U) (ipRe U) := by
  have hdigits : ∀ P : Char → Prop, (∀ ch, U.digit ch = true → P ch) →
      (upToThreeDigits U).TakesOnly P :=
    fun P hP => TakesOnly.rep (a := char U.digit) hP 1 2
  have halike : ∀ next next', (upToThreeDigits U).Alike next next' :=
    fun _ _ => Alike.rep (a := char U.digit) trivial 1 2
  apply framed_bounded
  · exact upToThreeDigits_consuming U
  · exact hdigits _ fun ch hch => U.word_of_digit ch hch
  · intro next next'
    have hpart : (concat [upToThreeDigits U, char (· == '.')]).Alike next next' :=
      ⟨halike next next', trivial, trivial⟩
    exact ⟨hpart.rep 3 0, halike next next'⟩
  · have hpart : (concat [upToThreeDigits U, char (· == '.')]).TakesOnly
        fun ch => ch ≠ '[' ∧ ch ≠ ']' :=
      ⟨hdigits _ (ne_bracket (U.ascii_digit '[' (by decide)) (U.ascii_digit ']' (by decide))),
        ne_bracket (by decide) (by decide), trivial⟩
    refine ⟨hpart.rep 3 0, apartFromCapitals, 1, ?_, letters_weightless U⟩
    have hdot : (char (· == '.')).WeighsAtLeast apartFromCapitals 1 := by
      apply WeighsAtLeast.char
      intro ch hch
      rw [beq_iff_eq.mp hch]
      decide
    have hpart : (concat [upToThreeDigits U, char (· == '.')]).WeighsAtLeast apartFromCapitals 1 :=
      ((WeighsAtLeast.zero _ _).seq (hdot.seq (WeighsAtLeast.zero _ _))).mono (by decide)
    exact (hpart.rep 3 0).mono (by decide)

theorem scrubText_unmatched (text : Text) : Unmatched U (scrubText U text) := by
  have hemail : (emailRe U).Clean (sub (emailRe U) redacted text) :=
    (emailRe_framed U).clean_sub_self text
  exact ⟨(ipRe_framed U).clean_sub (emailRe_framed U) hemail, (ipRe_framed U).clean_sub_self _⟩

theorem scrubText_of_unmatched {text : Text} (h : Unmatched U text) : scrubText U text = text := by
  rw [scrubText, h.1.sub_eq, h.2.sub_eq]

/-- The classes without the letters and digits outside ASCII. -/
def asciiClasses : UnicodeClasses where
  word ch := ch.isAlphanum || ch == '_'
  digit := Char.isDigit
  word_of_digit := by
    intro ch h
    rw [Char.isAlphanum, h, Bool.or_true, Bool.true_or]
  ascii_word := fun _ _ => rfl
  ascii_digit := fun _ _ => rfl

example : scrubText asciiClasses "by a.b@mail.org at 10.0.0.1.".toList =
    "by [REDACTED] at [REDACTED].".toList := by
  decide +kernel

end Patterns

end Engramia.Governance
