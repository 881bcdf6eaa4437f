import Engramia.Governance.ScrubPatterns
import Engramia.Library.RegexCount

/-!
The nine rules of the regex redactor. Every match of a rule weighs more than what is inserted in
its place, and takes no bracket; so no match reaches into a placeholder.
-/
namespace Engramia.Governance
open Engramia.Library Engramia.Library.Regex Engramia.Storage

/-- The white space of the engine besides its words and digits. -/
structure TextClasses extends UnicodeClasses where
  space : Char → Bool
  ascii_space : ∀ ch : Char, ch.toNat < 128 →
    space ch = (decide (9 ≤ ch.toNat ∧ ch.toNat ≤ 13) || decide (28 ≤ ch.toNat ∧ ch.toNat ≤ 32))

/-- An entry of `_REGEX_RULES`. -/
structure RegexRule where
  name : Text
  pattern : Regex Char
  replacement : Text

section Definitions
variable (U : TextClasses)

def literal (text : Text) : Regex Char :=
  concat (text.map fun ch => char (· == ch))

/-- `[a-zA-Z]` without regard to case, which are four letters outside ASCII more. -/
def letterAnyCase (ch : Char) : Bool :=
  ch.isAlpha || oneOf ['\u0130', '\u0131', '\u017f', '\u212a'] ch

def upperOrDigit (ch : Char) : Bool := ch.isUpper || ch.isDigit

/-- `[A-Za-z0-9\-_]` -/
def base64Url (ch : Char) : Bool := ch.isAlphanum || oneOf ['-', '_'] ch

def hexDigit (ch : Char) : Bool :=
  ch.isDigit || oneOf "abcdefABCDEF".toList ch

/-- A digit of ASCII in a range. -/
def digitBetween (lo hi ch : Char) : Bool := decide (lo ≤ ch) && decide (ch ≤ hi)

/-- `\d{least,least + extra}` -/
def digits (least extra : ℕ) : Regex Char := rep (char U.digit) least extra

/-- `[\s\-.]?` -/
def phoneGap : Regex Char := opt (char fun ch => U.space ch || oneOf ['-', '.'] ch)

/-- `[\s\-]?` -/
def cardGap : Regex Char := opt (char fun ch => U.space ch || ch == '-')

def emailRule : RegexRule where
  name := "email".toList
  pattern := concat
    [many (fun ch => letterAnyCase ch || ch.isDigit || oneOf ['.', '_', '%', '+', '-'] ch) 1,
      char (· == '@'), many (fun ch => letterAnyCase ch || ch.isDigit || oneOf ['.', '-'] ch) 1,
      char (· == '.'), many letterAnyCase 2]
  replacement := "[REDACTED_EMAIL]".toList

def ipv4Rule : RegexRule where
  name := "ipv4".toList
  pattern := concat
    [boundary U.word, rep (concat [digits U 1 2, char (· == '.')]) 3 0, digits U 1 2,
      boundary U.word]
  replacement := "[REDACTED_IP]".toList

def jwtRule : RegexRule where
  name := "jwt".toList
  pattern := concat
    [literal "eyJ".toList, many base64Url 1, char (· == '.'), many base64Url 1, char (· == '.'),
      many base64Url 1]
  replacement := "[REDACTED_JWT]".toList

def openaiKeyRule : RegexRule where
  name := "openai_key".toList
  pattern := concat
    [boundary U.word, literal "sk-".toList, many Char.isAlphanum 20, boundary U.word]
  replacement := "[REDACTED_OPENAI_KEY]".toList

def awsAccessKeyRule : RegexRule where
  name := "aws_access_key".toList
  pattern := concat
    [boundary U.word, literal "AKIA".toList, rep (char upperOrDigit) 16 0, boundary U.word]
  replacement := "[REDACTED_AWS_KEY]".toList

def githubTokenRule : RegexRule where
  name := "github_token".toList
  pattern := concat
    [boundary U.word, literal "ghp_".toList, rep (char Char.isAlphanum) 36 0, boundary U.word]
  replacement := "[REDACTED_GITHUB_TOKEN]".toList

def internationalPhone : Regex Char :=
  concat
    [alt (char (· == '+')) (literal "00".toList), char (digitBetween '1' '9'), digits U 0 3,
      rep (seq (phoneGap U) (many U.digit 2)) 2 3]

def domesticPhone : Regex Char :=
  concat
    [char (· == '('), digits U 2 2, char (· == ')'), phoneGap U, digits U 3 1, phoneGap U,
      digits U 3 3]

def phoneRule : RegexRule where
  name := "phone".toList
  pattern := concat
    [notAfter U.digit, alt (internationalPhone U) (domesticPhone U), notBefore U.digit]
  replacement := "[REDACTED_PHONE]".toList

/-- `(?:[\s\-]?\d{4}){3}` behind the first four digits. -/
def cardGroups : Regex Char :=
  rep (seq (cardGap U) (digits U 4 0)) 3 0

def amexCard : Regex Char :=
  concat
    [char (· == '3'), char (oneOf ['4', '7']), digits U 2 0, cardGap U, digits U 6 0, cardGap U,
      digits U 5 0]

def visaCard : Regex Char :=
  concat [char (· == '4'), digits U 3 0, cardGroups U]

def mastercard : Regex Char :=
  seq
    (alt (concat [char (· == '5'), char (digitBetween '1' '5'), digits U 2 0])
      (concat [char (· == '2'), char (digitBetween '2' '7'), digits U 2 0]))
    (cardGroups U)

def discoverCard : Regex Char :=
  seq (alt (literal "6011".toList) (concat [literal "65".toList, digits U 2 0])) (cardGroups U)

def creditCardRule : RegexRule where
  name := "credit_card".toList
  pattern := concat
    [notAfter U.digit,
      alt (amexCard U) (alt (visaCard U) (alt (mastercard U) (discoverCard U))),
      notBefore U.digit]
  replacement := "[REDACTED_CARD]".toList

def hexSecretRule : RegexRule where
  name := "hex_secret".toList
  pattern := concat
    [notAfter Char.isAlphanum, rep (char hexDigit) 32 32, notBefore Char.isAlphanum]
  replacement := "[REDACTED_SECRET]".toList

/-- `_REGEX_RULES` -/
def regexRules : List RegexRule :=
  [emailRule, ipv4Rule U, jwtRule, openaiKeyRule U, awsAccessKeyRule U, githubTokenRule U,
    phoneRule U, creditCardRule U, hexSecretRule]

/-- Capital letters weigh one and all else ten, but brackets and underscores nothing. -/
def weigh (ch : Char) : ℕ :=
  if oneOf ['[', ']', '_'] ch then 0 else if ch.isUpper then 1 else 10

/-- What every match of a rule is, and what is inserted in its place. -/
structure Lawful (rule : RegexRule) : Prop where
  weighs : rule.pattern.WeighsAtLeast weigh 20
  takes : rule.pattern.TakesOnly fun ch => ch ≠ '[' ∧ ch ≠ ']'
  inserts : ∃ letters, rule.replacement = '[' :: (letters ++ [']']) ∧ weight weigh letters < 20

end Definitions

section Characters
variable (U : TextClasses)

theorem isUpper_ascii {ch : Char} (h : ch.isUpper = true) : ch.toNat < 128 := by
  apply isAlphanum_ascii
  rw [isAlphanum_eq, h, Bool.true_or, Bool.true_or]

theorem not_isUpper_of_isDigit {ch : Char} (h : ch.isDigit = true) : ch.isUpper = false := by
  have hnine : '9'.val.toNat = 57 := rfl
  have hletter : 'A'.val.toNat = 65 := rfl
  simp only [Char.isDigit, isUpper_eq, Bool.and_eq_true,
    decide_eq_true_eq, decide_eq_false_iff_not, ge_iff_le, UInt32.le_iff_toNat_le] at h ⊢
  omega

theorem one_le_weigh {p : Char → Bool} (hopening : p '[' = false) (hclosing : p ']' = false)
    (hlow : p '_' = false) {ch : Char} (h : p ch = true) : 1 ≤ weigh ch := by
  have hplain : oneOf ['[', ']', '_'] ch = false := by
    rw [oneOf, List.any_eq_false]
    intro x hx heq
    rw [← beq_iff_eq.mp heq] at h
    simp only [List.mem_cons, List.not_mem_nil, or_false] at hx
    cases hx with
    | inl hx => rw [hx, hopening] at h; cases h
    | inr hx =>
        cases hx with
        | inl hx => rw [hx, hclosing] at h; cases h
        | inr hx => rw [hx, hlow] at h; cases h
  rw [weigh, hplain]
  split
  case isTrue h => cases h
  case isFalse =>
      split
      case isTrue => exact le_refl 1
      case isFalse => decide

theorem weigh_digit {ch : Char} (h : U.digit ch = true) : 10 ≤ weigh ch := by
  have hone : 1 ≤ weigh ch := one_le_weigh (U.ascii_digit '[' (by decide))
    (U.ascii_digit ']' (by decide)) (U.ascii_digit '_' (by decide)) h
  have hupper : ch.isUpper = false := by
    cases hch : ch.isUpper with
    | false => rfl
    | true =>
        rw [U.ascii_digit ch (isUpper_ascii hch)] at h
        rw [← hch, not_isUpper_of_isDigit h]
  rw [weigh, hupper] at hone ⊢
  split at hone
  case isTrue => omega
  case isFalse hplain =>
      rw [if_neg hplain]
      exact le_refl 10

theorem exactly_weighs (x : Char) : (char (· == x)).WeighsAtLeast weigh (weigh x) := by
  apply WeighsAtLeast.char
  intro ch hch
  rw [beq_iff_eq.mp hch]

theorem literal_weighs (text : Text) : (literal text).WeighsAtLeast weigh (weight weigh text) := by
  induction text with
  | nil => exact WeighsAtLeast.empty weigh
  | cons x text ih =>
      rw [weight_cons]
      exact (exactly_weighs x).seq ih

theorem digits_weigh (least extra : ℕ) :
    (digits U least extra).WeighsAtLeast weigh (least * 10) :=
  (WeighsAtLeast.char fun _ hch => weigh_digit U hch).rep least extra

theorem class_weighs {p : Char → Bool} (hopening : p '[' = false) (hclosing : p ']' = false)
    (hlow : p '_' = false) : (char p).WeighsAtLeast weigh 1 :=
  .char fun _ hch => one_le_weigh hopening hclosing hlow hch

end Characters

section Laws
variable (U : TextClasses)

theorem literal_takes {text : Text} (hopening : oneOf text '[' = false)
    (hclosing : oneOf text ']' = false) :
    (literal text).TakesOnly fun ch => ch ≠ '[' ∧ ch ≠ ']' := by
  have hall : ∀ letters : Text, (∀ x ∈ letters, x ∈ text) →
      (literal letters).TakesOnly fun ch => ch ≠ '[' ∧ ch ≠ ']' := by
    intro letters
    induction letters with
    | nil => exact fun _ => trivial
    | cons x letters ih =>
        intro hletters
        refine ⟨?_, ih fun y hy => hletters y (List.mem_cons_of_mem _ hy)⟩
        intro ch hch
        apply ne_bracket hopening hclosing
        rw [beq_iff_eq.mp hch]
        exact List.any_eq_true.mpr ⟨x, hletters x List.mem_cons_self, beq_self_eq_true x⟩
  exact hall text fun _ hx => hx

theorem digit_takes : ∀ ch, U.digit ch = true → ch ≠ '[' ∧ ch ≠ ']' :=
  ne_bracket (U.ascii_digit '[' (by decide)) (U.ascii_digit ']' (by decide))

theorem digits_take (least extra : ℕ) :
    (digits U least extra).TakesOnly fun ch => ch ≠ '[' ∧ ch ≠ ']' :=
  TakesOnly.rep (a := char U.digit) (digit_takes U) least extra

theorem gap_takes {p : Char → Bool} (hopening : p '[' = false) (hclosing : p ']' = false) :
    (opt (char fun ch => U.space ch || p ch)).TakesOnly fun ch => ch ≠ '[' ∧ ch ≠ ']' := by
  refine ⟨ne_bracket ?_ ?_, trivial⟩
  · rw [U.ascii_space '[' (by decide), hopening]
    rfl
  · rw [U.ascii_space ']' (by decide), hclosing]
    rfl

theorem phoneGap_takes : (phoneGap U).TakesOnly fun ch => ch ≠ '[' ∧ ch ≠ ']' :=
  gap_takes U (p := oneOf ['-', '.']) (by decide) (by decide)

theorem cardGap_takes : (cardGap U).TakesOnly fun ch => ch ≠ '[' ∧ ch ≠ ']' :=
  gap_takes U (p := (· == '-')) (by decide) (by decide)

theorem emailRule_lawful : Lawful emailRule where
  weighs := by
    have hlocal := WeighsAtLeast.zero weigh
      (many (fun ch => letterAnyCase ch || ch.isDigit || oneOf ['.', '_', '%', '+', '-'] ch) 1)
    have hdomain : (many (fun ch => letterAnyCase ch || ch.isDigit || oneOf ['.', '-'] ch)
        1).WeighsAtLeast weigh (1 * 1) :=
      .many (fun _ hch => one_le_weigh (by decide) (by decide) (by decide) hch) 1
    have hsuffix : (many letterAnyCase 2).WeighsAtLeast weigh (2 * 1) :=
      .many (fun _ hch => one_le_weigh (by decide) (by decide) (by decide) hch) 2
    have hall := hlocal.seq ((exactly_weighs '@').seq
      (hdomain.seq ((exactly_weighs '.').seq (hsuffix.seq (.empty weigh)))))
    exact hall.mono (by decide)
  takes := ⟨ne_bracket (by decide) (by decide), ne_bracket (by decide) (by decide),
    ne_bracket (by decide) (by decide), ne_bracket (by decide) (by decide),
    ne_bracket (by decide) (by decide), trivial⟩
  inserts := ⟨"REDACTED_EMAIL".toList, rfl, by decide⟩

theorem ipv4Rule_lawful : Lawful (ipv4Rule U) where
  weighs := by
    have hgroup := (digits_weigh U 1 2).seq ((exactly_weighs '.').seq (.empty weigh))
    have hboundary := WeighsAtLeast.zero weigh (boundary U.word)
    have hall := hboundary.seq ((hgroup.rep 3 0).seq
      ((digits_weigh U 1 2).seq (hboundary.seq (.empty weigh))))
    exact hall.mono (by decide)
  takes := by
    have hgroup : (concat [digits U 1 2, char (· == '.')]).TakesOnly
        fun ch => ch ≠ '[' ∧ ch ≠ ']' :=
      ⟨digits_take U 1 2, ne_bracket (by decide) (by decide), trivial⟩
    exact ⟨trivial, hgroup.rep 3 0, digits_take U 1 2, trivial, trivial⟩
  inserts := ⟨"REDACTED_IP".toList, rfl, by decide⟩

theorem jwtRule_lawful : Lawful jwtRule where
  weighs := by
    have hpart := WeighsAtLeast.zero weigh (many base64Url 1)
    have hall := (literal_weighs "eyJ".toList).seq (hpart.seq ((exactly_weighs '.').seq
      (hpart.seq ((exactly_weighs '.').seq (hpart.seq (.empty weigh))))))
    exact hall.mono (by decide)
  takes := ⟨literal_takes (by decide) (by decide), ne_bracket (by decide) (by decide),
    ne_bracket (by decide) (by decide), ne_bracket (by decide) (by decide),
    ne_bracket (by decide) (by decide), ne_bracket (by decide) (by decide), trivial⟩
  inserts := ⟨"REDACTED_JWT".toList, rfl, by decide⟩

theorem openaiKeyRule_lawful : Lawful (openaiKeyRule U) where
  weighs := by
    have hkey : (many Char.isAlphanum 20).WeighsAtLeast weigh (20 * 1) :=
      .many (fun _ hch => one_le_weigh (by decide) (by decide) (by decide) hch) 20
    have hboundary := WeighsAtLeast.zero weigh (boundary U.word)
    have hall := hboundary.seq ((literal_weighs "sk-".toList).seq
      (hkey.seq (hboundary.seq (.empty weigh))))
    exact hall.mono (by decide)
  takes := ⟨trivial, literal_takes (by decide) (by decide), ne_bracket (by decide) (by decide),
    trivial, trivial⟩
  inserts := ⟨"REDACTED_OPENAI_KEY".toList, rfl, by decide⟩

theorem key_lawful (start : Text) (p : Char → Bool) (n : ℕ) (hopening : p '[' = false)
    (hclosing : p ']' = false) (hlow : p '_' = false) (hstart : oneOf start '[' = false)
    (hstart' : oneOf start ']' = false) (hheavy : 20 ≤ weight weigh start + n) :
    (concat [boundary U.word, literal start, rep (char p) n 0,
      boundary U.word]).WeighsAtLeast weigh 20 ∧
    (concat [boundary U.word, literal start, rep (char p) n 0, boundary U.word]).TakesOnly
      fun ch => ch ≠ '[' ∧ ch ≠ ']' := by
  constructor
  · have hkey := (class_weighs hopening hclosing hlow).rep n 0
    have hboundary := WeighsAtLeast.zero weigh (boundary U.word)
    have hall := hboundary.seq ((literal_weighs start).seq
      (hkey.seq (hboundary.seq (.empty weigh))))
    exact hall.mono (by omega)
  · exact ⟨trivial, literal_takes hstart hstart',
      TakesOnly.rep (a := char p) (ne_bracket hopening hclosing) n 0, trivial, trivial⟩

theorem awsAccessKeyRule_lawful : Lawful (awsAccessKeyRule U) := by
  obtain ⟨hweighs, htakes⟩ := key_lawful U "AKIA".toList upperOrDigit 16
    (by decide) (by decide) (by decide) (by decide) (by decide) (by decide)
  exact ⟨hweighs, htakes, "REDACTED_AWS_KEY".toList, rfl, by decide⟩

theorem githubTokenRule_lawful : Lawful (githubTokenRule U) := by
  obtain ⟨hweighs, htakes⟩ := key_lawful U "ghp_".toList Char.isAlphanum 36
    (by decide) (by decide) (by decide) (by decide) (by decide) (by decide)
  exact ⟨hweighs, htakes, "REDACTED_GITHUB_TOKEN".toList, rfl, by decide⟩

theorem internationalPhone_weighs : (internationalPhone U).WeighsAtLeast weigh 20 := by
  have hgroup : (many U.digit 2).WeighsAtLeast weigh (2 * 10) :=
    .many (fun _ hch => weigh_digit U hch) 2
  have hgroups := ((WeighsAtLeast.zero weigh (phoneGap U)).seq hgroup).rep 2 3
  exact ((WeighsAtLeast.zero _ _).seq ((WeighsAtLeast.zero _ _).seq
    ((WeighsAtLeast.zero _ _).seq (hgroups.seq (.empty weigh))))).mono (by decide)

theorem internationalPhone_takes :
    (internationalPhone U).TakesOnly fun ch => ch ≠ '[' ∧ ch ≠ ']' := by
  have hgroup : (seq (phoneGap U) (many U.digit 2)).TakesOnly fun ch => ch ≠ '[' ∧ ch ≠ ']' :=
    ⟨phoneGap_takes U, digit_takes U⟩
  exact ⟨⟨ne_bracket (by decide) (by decide), literal_takes (by decide) (by decide)⟩,
    ne_bracket (by decide) (by decide), digits_take U 0 3, hgroup.rep 2 3, trivial⟩

theorem domesticPhone_weighs : (domesticPhone U).WeighsAtLeast weigh 20 :=
  ((WeighsAtLeast.zero _ _).seq
    ((digits_weigh U 2 2).seq (WeighsAtLeast.zero _ _))).mono (by decide)

theorem domesticPhone_takes : (domesticPhone U).TakesOnly fun ch => ch ≠ '[' ∧ ch ≠ ']' :=
  ⟨ne_bracket (by decide) (by decide), digits_take U 2 2, ne_bracket (by decide) (by decide),
    phoneGap_takes U, digits_take U 3 1, phoneGap_takes U, digits_take U 3 3, trivial⟩

theorem phoneRule_lawful : Lawful (phoneRule U) where
  weighs := by
    have hnumber := (internationalPhone_weighs U).alt (domesticPhone_weighs U)
    have hall := (WeighsAtLeast.zero weigh (notAfter U.digit)).seq
      (hnumber.seq ((WeighsAtLeast.zero weigh (notBefore U.digit)).seq (.empty weigh)))
    exact hall.mono (by decide)
  takes := ⟨trivial, ⟨internationalPhone_takes U, domesticPhone_takes U⟩, trivial, trivial⟩
  inserts := ⟨"REDACTED_PHONE".toList, rfl, by decide⟩

theorem cardGroups_weigh : (cardGroups U).WeighsAtLeast weigh 20 :=
  (((WeighsAtLeast.zero weigh (cardGap U)).seq (digits_weigh U 4 0)).rep 3 0).mono (by decide)

theorem cardGroups_take : (cardGroups U).TakesOnly fun ch => ch ≠ '[' ∧ ch ≠ ']' := by
  have hgroup : (seq (cardGap U) (digits U 4 0)).TakesOnly fun ch => ch ≠ '[' ∧ ch ≠ ']' :=
    ⟨cardGap_takes U, digits_take U 4 0⟩
  exact hgroup.rep 3 0

theorem amexCard_weighs : (amexCard U).WeighsAtLeast weigh 20 :=
  ((WeighsAtLeast.zero _ _).seq ((WeighsAtLeast.zero _ _).seq
    ((digits_weigh U 2 0).seq (WeighsAtLeast.zero _ _)))).mono (by decide)

theorem amexCard_takes : (amexCard U).TakesOnly fun ch => ch ≠ '[' ∧ ch ≠ ']' :=
  ⟨ne_bracket (by decide) (by decide), ne_bracket (by decide) (by decide), digits_take U 2 0,
    cardGap_takes U, digits_take U 6 0, cardGap_takes U, digits_take U 5 0, trivial⟩

theorem visaCard_weighs : (visaCard U).WeighsAtLeast weigh 20 :=
  ((WeighsAtLeast.zero _ _).seq ((WeighsAtLeast.zero _ _).seq
    ((cardGroups_weigh U).seq (.empty weigh)))).mono (by decide)

theorem visaCard_takes : (visaCard U).TakesOnly fun ch => ch ≠ '[' ∧ ch ≠ ']' :=
  ⟨ne_bracket (by decide) (by decide), digits_take U 3 0, cardGroups_take U, trivial⟩

theorem mastercard_weighs : (mastercard U).WeighsAtLeast weigh 20 :=
  ((WeighsAtLeast.zero _ _).seq (cardGroups_weigh U)).mono (by decide)

theorem mastercard_takes : (mastercard U).TakesOnly fun ch => ch ≠ '[' ∧ ch ≠ ']' :=
  ⟨⟨⟨ne_bracket (by decide) (by decide), ne_bracket (by decide) (by decide),
      digits_take U 2 0, trivial⟩,
    ne_bracket (by decide) (by decide), ne_bracket (by decide) (by decide),
      digits_take U 2 0, trivial⟩, cardGroups_take U⟩

theorem discoverCard_weighs : (discoverCard U).WeighsAtLeast weigh 20 :=
  ((WeighsAtLeast.zero _ _).seq (cardGroups_weigh U)).mono (by decide)

theorem discoverCard_takes : (discoverCard U).TakesOnly fun ch => ch ≠ '[' ∧ ch ≠ ']' :=
  ⟨⟨literal_takes (by decide) (by decide), literal_takes (by decide) (by decide),
    digits_take U 2 0, trivial⟩, cardGroups_take U⟩

theorem creditCardRule_lawful : Lawful (creditCardRule U) where
  weighs := by
    have hnumber := (amexCard_weighs U).alt
      ((visaCard_weighs U).alt ((mastercard_weighs U).alt (discoverCard_weighs U)))
    have hall := (WeighsAtLeast.zero weigh (notAfter U.digit)).seq
      (hnumber.seq ((WeighsAtLeast.zero weigh (notBefore U.digit)).seq (.empty weigh)))
    exact hall.mono (by decide)
  takes := ⟨trivial,
    ⟨amexCard_takes U, visaCard_takes U, mastercard_takes U, discoverCard_takes U⟩, trivial,
    trivial⟩
  inserts := ⟨"REDACTED_CARD".toList, rfl, by decide⟩

theorem hexDigits_weigh : (rep (char hexDigit) 32 32).WeighsAtLeast weigh (32 * 1) :=
  (class_weighs (by decide) (by decide) (by decide)).rep 32 32

theorem hexDigits_take :
    (rep (char hexDigit) 32 32).TakesOnly fun ch => ch ≠ '[' ∧ ch ≠ ']' :=
  TakesOnly.rep (a := char hexDigit) (ne_bracket (by decide) (by decide)) 32 32

theorem hexSecretRule_lawful : Lawful hexSecretRule where
  weighs := by
    have hall := (WeighsAtLeast.zero weigh (notAfter Char.isAlphanum)).seq
      (hexDigits_weigh.seq
        ((WeighsAtLeast.zero weigh (notBefore Char.isAlphanum)).seq (.empty weigh)))
    exact hall.mono (by decide)
  takes := ⟨trivial, hexDigits_take, trivial, trivial⟩
  inserts := ⟨"REDACTED_SECRET".toList, rfl, by decide⟩

theorem regexRules_lawful : ∀ rule ∈ regexRules U, Lawful rule := by
  simp only [regexRules, List.forall_mem_cons]
  exact ⟨emailRule_lawful, ipv4Rule_lawful U, jwtRule_lawful, openaiKeyRule_lawful U,
    awsAccessKeyRule_lawful U, githubTokenRule_lawful U, phoneRule_lawful U,
    creditCardRule_lawful U, hexSecretRule_lawful, fun _ h => absurd h List.not_mem_nil⟩

end Laws

end Engramia.Governance
