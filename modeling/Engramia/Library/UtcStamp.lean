import Mathlib.Algebra.Ring.Nat
import Mathlib.Data.Char
import Mathlib.Data.List.Lex

/-!
Calendar instants as text of fixed width, `YYYY-MM-DDTHH:MM:SSZ`. Every field has as
many digits as its largest value, the larger unit first, so that comparing two such
texts letter by letter compares the instants they name.
-/
namespace Engramia.Library

/-- Decimal digits of fixed width, leading zeros included. -/
def digits : Nat → Nat → List Char
  | 0, _ => []
  | width + 1, n => Nat.digitChar (n / 10 ^ width % 10) :: digits width (n % 10 ^ width)

section Digits
variable {width m n : Nat}

theorem digitChar_lt_iff : ∀ a < 10, ∀ b < 10, Nat.digitChar a < Nat.digitChar b ↔ a < b := by
  decide

theorem digitChar_inj : ∀ a < 10, ∀ b < 10, Nat.digitChar a = Nat.digitChar b ↔ a = b := by
  decide

theorem length_digits : (digits width n).length = width := by
  induction width generalizing n with
  | zero => rfl
  | succ width ih => rw [digits, List.length_cons, ih]

theorem leading_digit (h : n < 10 ^ (width + 1)) :
    n / 10 ^ width % 10 = n / 10 ^ width ∧ n / 10 ^ width < 10 := by
  have hlt : n / 10 ^ width < 10 := Nat.div_lt_of_lt_mul (by rwa [← Nat.pow_succ])
  exact ⟨Nat.mod_eq_of_lt hlt, hlt⟩

theorem digits_inj (hm : m < 10 ^ width) (hn : n < 10 ^ width) :
    digits width m = digits width n ↔ m = n := by
  induction width generalizing m n with
  | zero =>
      rw [Nat.pow_zero] at hm hn
      simp only [digits, true_iff]
      omega
  | succ width ih =>
      have hpos : 0 < 10 ^ width := Nat.pow_pos (by decide)
      obtain ⟨hqm, hm10⟩ := leading_digit hm
      obtain ⟨hqn, hn10⟩ := leading_digit hn
      rw [digits, digits, List.cons.injEq, hqm, hqn, digitChar_inj _ hm10 _ hn10,
        ih (Nat.mod_lt _ hpos) (Nat.mod_lt _ hpos)]
      constructor
      · intro h
        rw [← Nat.div_add_mod m (10 ^ width), ← Nat.div_add_mod n (10 ^ width), h.1, h.2]
      · intro h
        rw [h]
        exact ⟨rfl, rfl⟩

theorem digits_lt_iff (hm : m < 10 ^ width) (hn : n < 10 ^ width) :
    digits width m < digits width n ↔ m < n := by
  induction width generalizing m n with
  | zero =>
      rw [Nat.pow_zero] at hm hn
      simp only [digits, List.lt_irrefl, false_iff]
      omega
  | succ width ih =>
      have hpos : 0 < 10 ^ width := Nat.pow_pos (by decide)
      obtain ⟨hqm, hm10⟩ := leading_digit hm
      obtain ⟨hqn, hn10⟩ := leading_digit hn
      rw [digits, digits, List.cons_lt_cons_iff, hqm, hqn, digitChar_inj _ hm10 _ hn10,
        digitChar_lt_iff _ hm10 _ hn10, ih (Nat.mod_lt _ hpos) (Nat.mod_lt _ hpos)]
      have hsm := Nat.div_add_mod m (10 ^ width)
      have hsn := Nat.div_add_mod n (10 ^ width)
      have hrm := Nat.mod_lt m hpos
      have hrn := Nat.mod_lt n hpos
      constructor
      · intro h
        cases h with
        | inl hq =>
            have hmul := Nat.mul_le_mul_left (10 ^ width) (Nat.succ_le_of_lt hq)
            rw [Nat.mul_succ] at hmul
            omega
        | inr hq =>
            rw [hq.1] at hsm
            omega
      · intro h
        by_cases hq : m / 10 ^ width = n / 10 ^ width
        · rw [hq] at hsm
          exact .inr ⟨hq, by omega⟩
        · have hle : m / 10 ^ width ≤ n / 10 ^ width := Nat.div_le_div_right (Nat.le_of_lt h)
          exact .inl (by omega)

end Digits

theorem append_lt_append_iff {a b x y : List Char} (h : a.length = b.length) :
    a ++ x < b ++ y ↔ a < b ∨ a = b ∧ x < y := by
  induction a generalizing b with
  | nil =>
      cases b with
      | nil => simp
      | cons c b => cases h
  | cons c a ih =>
      cases b with
      | nil => cases h
      | cons d b =>
          rw [List.cons_append, List.cons_append, List.cons_lt_cons_iff, List.cons_lt_cons_iff,
            ih (Nat.succ.inj h), List.cons.injEq]
          by_cases hcd : c = d <;> simp [hcd]

theorem field_lt_iff {width m n : Nat} {sep : Char} {x y : List Char} (hm : m < 10 ^ width)
    (hn : n < 10 ^ width) :
    digits width m ++ sep :: x < digits width n ++ sep :: y ↔ m < n ∨ m = n ∧ x < y := by
  rw [append_lt_append_iff (by rw [length_digits, length_digits]), digits_lt_iff hm hn,
    digits_inj hm hn, List.cons_lt_cons_iff]
  simp

section Calendar

def isLeap (year : Nat) : Bool :=
  year % 4 = 0 && (year % 100 ≠ 0 || year % 400 = 0)

def daysInMonth (year : Nat) : Nat → Nat
  | 2 => if isLeap year then 29 else 28
  | 4 => 30
  | 6 => 30
  | 9 => 30
  | 11 => 30
  | _ => 31

def daysBeforeMonth (year : Nat) : Nat → Nat
  | 0 => 0
  | 1 => 0
  | month + 2 => daysBeforeMonth year (month + 1) + daysInMonth year (month + 1)

/-- Days before a year, from the first of January of the year 0. -/
def daysBeforeYear (year : Nat) : Nat :=
  365 * year + (year + 3) / 4 - (year + 99) / 100 + (year + 399) / 400

theorem daysBeforeMonth_year (year : Nat) :
    daysBeforeMonth year 13 = if isLeap year then 366 else 365 := by
  simp only [daysBeforeMonth, daysInMonth]
  cases isLeap year <;> rfl

/-- One for a multiple of a number. -/
def isMultiple (year k : Nat) : Nat :=
  if year % k = 0 then 1 else 0

theorem isLeap_days (year : Nat) :
    (if isLeap year then 366 else 365) + isMultiple year 100 =
      365 + isMultiple year 4 + isMultiple year 400 := by
  rw [isMultiple, isMultiple, isMultiple]
  by_cases h4 : year % 4 = 0
  · by_cases h100 : year % 100 = 0
    · by_cases h400 : year % 400 = 0 <;> simp [isLeap, h4, h100, h400]
    · have h400 : year % 400 ≠ 0 := by omega
      simp [isLeap, h4, h100, h400]
  · have h100 : year % 100 ≠ 0 := by omega
    have h400 : year % 400 ≠ 0 := by omega
    simp [isLeap, h4, h100, h400]

theorem daysBeforeYear_succ (year : Nat) :
    daysBeforeYear (year + 1) = daysBeforeYear year + daysBeforeMonth year 13 := by
  have h4 : (year + 1 + 3) / 4 = (year + 3) / 4 + isMultiple year 4 := by
    unfold isMultiple
    split <;> omega
  have h100 : (year + 1 + 99) / 100 = (year + 99) / 100 + isMultiple year 100 := by
    unfold isMultiple
    split <;> omega
  have h400 : (year + 1 + 399) / 400 = (year + 399) / 400 + isMultiple year 400 := by
    unfold isMultiple
    split <;> omega
  have hle : (year + 1 + 99) / 100 ≤ (year + 1 + 3) / 4 := by omega
  have hle' : (year + 99) / 100 ≤ (year + 3) / 4 := by omega
  have hlength := isLeap_days year
  rw [daysBeforeMonth_year, daysBeforeYear, daysBeforeYear]
  omega

theorem daysBeforeMonth_mono (year : Nat) {m n : Nat} (hm : 0 < m) (h : m < n) :
    daysBeforeMonth year m + daysInMonth year m ≤ daysBeforeMonth year n := by
  induction n with
  | zero => exact absurd h (Nat.not_lt_zero _)
  | succ n ih =>
      cases n with
      | zero => omega
      | succ n =>
          rw [daysBeforeMonth]
          by_cases hmn : m < n + 1
          · have := ih hmn
            omega
          · have heq : m = n + 1 := by omega
            rw [heq]

theorem daysBeforeYear_mono {m n : Nat} (h : m ≤ n) : daysBeforeYear m ≤ daysBeforeYear n := by
  induction h with
  | refl => exact Nat.le_refl _
  | step _ ih =>
      rw [daysBeforeYear_succ]
      exact Nat.le_trans ih (Nat.le_add_right _ _)

end Calendar

/-- An instant of whole seconds as `strftime` writes it. -/
structure UtcStamp where
  year : Nat
  month : Nat
  day : Nat
  hour : Nat
  minute : Nat
  second : Nat
  yearValid : year < 10000
  monthValid : 0 < month ∧ month ≤ 12
  dayValid : 0 < day ∧ day ≤ daysInMonth year month
  hourValid : hour < 24
  minuteValid : minute < 60
  secondValid : second < 60
deriving DecidableEq

namespace UtcStamp

/-- The parts of a stamp are in range. -/
abbrev InRange (year month day hour minute second : Nat) : Prop :=
  year < 10000 ∧ (0 < month ∧ month ≤ 12) ∧ (0 < day ∧ day ≤ daysInMonth year month) ∧
    hour < 24 ∧ minute < 60 ∧ second < 60

def of (year month day hour minute second : Nat)
    (h : InRange year month day hour minute second) : UtcStamp where
  year := year
  month := month
  day := day
  hour := hour
  minute := minute
  second := second
  yearValid := h.1
  monthValid := h.2.1
  dayValid := h.2.2.1
  hourValid := h.2.2.2.1
  minuteValid := h.2.2.2.2.1
  secondValid := h.2.2.2.2.2

variable (a b : UtcStamp)

/-- `YYYY-MM-DDTHH:MM:SSZ`. -/
def text : List Char :=
  digits 4 a.year ++ '-' :: (digits 2 a.month ++ '-' :: (digits 2 a.day ++ 'T' ::
    (digits 2 a.hour ++ ':' :: (digits 2 a.minute ++ ':' :: (digits 2 a.second ++ ['Z'])))))

/-- The number of the day, from the first of January of the year 0. -/
def dayNumber : Nat :=
  daysBeforeYear a.year + daysBeforeMonth a.year a.month + a.day

def secondOfDay : Nat := (a.hour * 60 + a.minute) * 60 + a.second

/-- Days from the year 0 to the epoch, the first day counted as one. -/
def epochDay : Nat := 719529

/-- Seconds since the epoch. -/
def seconds : Int :=
  ((a.dayNumber : Int) - epochDay) * 86400 + a.secondOfDay

/-- The first field in which two stamps differ decides. -/
def Before : Prop :=
  a.year < b.year ∨ a.year = b.year ∧ (a.month < b.month ∨ a.month = b.month ∧
    (a.day < b.day ∨ a.day = b.day ∧ (a.hour < b.hour ∨ a.hour = b.hour ∧
      (a.minute < b.minute ∨ a.minute = b.minute ∧ a.second < b.second))))

variable {a b}

theorem daysInMonth_le (year month : Nat) : daysInMonth year month ≤ 31 := by
  unfold daysInMonth
  split <;> (try split) <;> omega

theorem text_lt_iff_before : a.text < b.text ↔ Before a b := by
  have hda := Nat.le_trans a.dayValid.2 (daysInMonth_le _ _)
  have hdb := Nat.le_trans b.dayValid.2 (daysInMonth_le _ _)
  have hma := a.monthValid.2
  have hmb := b.monthValid.2
  have hha := a.hourValid
  have hhb := b.hourValid
  have hia := a.minuteValid
  have hib := b.minuteValid
  have hsa := a.secondValid
  have hsb := b.secondValid
  rw [text, text, field_lt_iff a.yearValid b.yearValid, field_lt_iff (by omega) (by omega),
    field_lt_iff (by omega) (by omega), field_lt_iff (by omega) (by omega),
    field_lt_iff (by omega) (by omega), field_lt_iff (by omega) (by omega), Before]
  simp only [List.lt_irrefl, and_false, or_false]

theorem dayNumber_le : a.dayNumber ≤ daysBeforeYear (a.year + 1) := by
  have hmonth := daysBeforeMonth_mono (n := 13) a.year a.monthValid.1
    (Nat.lt_succ_of_le a.monthValid.2)
  have hday := a.dayValid.2
  rw [daysBeforeYear_succ, dayNumber]
  omega

theorem lt_dayNumber : daysBeforeYear a.year < a.dayNumber := by
  have hday := a.dayValid.1
  rw [dayNumber]
  omega

theorem dayNumber_lt (h : a.year < b.year ∨ a.year = b.year ∧
    (a.month < b.month ∨ a.month = b.month ∧ a.day < b.day)) :
    a.dayNumber < b.dayNumber := by
  cases h with
  | inl hyear =>
      calc a.dayNumber
          ≤ daysBeforeYear (a.year + 1) := dayNumber_le
        _ ≤ daysBeforeYear b.year := daysBeforeYear_mono hyear
        _ < b.dayNumber := lt_dayNumber
  | inr h =>
      have hday := a.dayValid.2
      have hday' := b.dayValid.1
      rw [dayNumber, dayNumber, ← h.1]
      cases h.2 with
      | inl hmonth =>
          have := daysBeforeMonth_mono a.year a.monthValid.1 hmonth
          omega
      | inr hsame =>
          rw [← hsame.1]
          omega

theorem secondOfDay_lt : a.secondOfDay < 86400 := by
  have hh := a.hourValid
  have hm := a.minuteValid
  have hs := a.secondValid
  rw [secondOfDay]
  omega

theorem seconds_lt_of_before (h : Before a b) : a.seconds < b.seconds := by
  have hlast := @secondOfDay_lt a
  rw [seconds, seconds]
  by_cases hdate : a.year < b.year ∨ a.year = b.year ∧
      (a.month < b.month ∨ a.month = b.month ∧ a.day < b.day)
  · have hday := dayNumber_lt hdate
    omega
  · -- on one date the time of day decides
    have hsame : a.year = b.year ∧ a.month = b.month ∧ a.day = b.day := by
      rw [Before] at h
      omega
    have hday : a.dayNumber = b.dayNumber := by
      rw [dayNumber, dayNumber, hsame.1, hsame.2.1, hsame.2.2]
    have hma := a.minuteValid
    have hsa := a.secondValid
    rw [Before] at h
    rw [hday, secondOfDay, secondOfDay]
    omega

theorem before_or_eq_or_before (a b : UtcStamp) :
    Before a b ∨ a.seconds = b.seconds ∨ Before b a := by
  by_cases hab : Before a b
  · exact .inl hab
  · by_cases hba : Before b a
    · exact .inr (.inr hba)
    · refine .inr (.inl ?_)
      rw [Before] at hab hba
      have hsame : a.year = b.year ∧ a.month = b.month ∧ a.day = b.day ∧ a.hour = b.hour ∧
          a.minute = b.minute ∧ a.second = b.second := by omega
      rw [seconds, seconds, dayNumber, dayNumber, secondOfDay, secondOfDay, hsame.1, hsame.2.1,
        hsame.2.2.1, hsame.2.2.2.1, hsame.2.2.2.2.1, hsame.2.2.2.2.2]

theorem text_lt_iff : a.text < b.text ↔ a.seconds < b.seconds := by
  rw [text_lt_iff_before]
  constructor
  · exact seconds_lt_of_before
  · intro h
    cases before_or_eq_or_before a b with
    | inl hab => exact hab
    | inr hrest =>
        cases hrest with
        | inl heq => omega
        | inr hba =>
            have := seconds_lt_of_before hba
            omega

theorem text_le_iff : a.text ≤ b.text ↔ a.seconds ≤ b.seconds := by
  rw [← not_lt, ← Int.not_lt]
  exact not_congr text_lt_iff

end UtcStamp

end Engramia.Library
