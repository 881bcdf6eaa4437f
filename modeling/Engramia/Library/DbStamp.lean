import Engramia.Library.UtcStamp
import Mathlib.Algebra.Order.Floor.Ring
import Mathlib.Data.Rat.Floor
import Mathlib.Tactic.Linarith

/-!
Instants as a database writes them, `YYYY-MM-DD HH:MM:SS.ffffff+00`, beside the ISO text.
The two forms agree on the date. Behind it one has a blank and the other a letter, and the
blank comes first. So on one day every database text is before every ISO text, and only on
different days do the two compare as the instants do.
-/
namespace Engramia.Library

/-- An instant of whole microseconds. -/
structure DbStamp where
  utc : UtcStamp
  micro : Nat
  microValid : micro < 1000000

namespace UtcStamp
variable (a b : UtcStamp)

/-- A date, a letter behind it and the time of day. -/
def dated (sep : Char) (rest : List Char) : List Char :=
  digits 4 a.year ++ '-' :: (digits 2 a.month ++ '-' :: (digits 2 a.day ++ sep :: rest))

/-- `HH:MM:SS` with what follows. -/
def timed (rest : List Char) : List Char :=
  digits 2 a.hour ++ ':' :: (digits 2 a.minute ++ ':' :: (digits 2 a.second ++ rest))

variable {a b}

theorem dated_lt_iff {sep sep' : Char} {x y : List Char} (hsep : sep < sep') :
    a.dated sep x < b.dated sep' y ↔ a.dayNumber ≤ b.dayNumber := by
  have hda := Nat.le_trans a.dayValid.2 (daysInMonth_le _ _)
  have hdb := Nat.le_trans b.dayValid.2 (daysInMonth_le _ _)
  have hma := a.monthValid.2
  have hmb := b.monthValid.2
  have hday : digits 2 a.day ++ sep :: x < digits 2 b.day ++ sep' :: y ↔ a.day ≤ b.day := by
    rw [append_lt_append_iff (by rw [length_digits, length_digits]),
      digits_lt_iff (by omega) (by omega), digits_inj (by omega) (by omega),
      List.cons_lt_cons_iff, iff_true_intro hsep, true_or, and_true]
    omega
  rw [dated, dated, field_lt_iff a.yearValid b.yearValid, field_lt_iff (by omega) (by omega), hday]
  constructor
  · intro h
    by_cases hdate : a.year < b.year ∨ a.year = b.year ∧
        (a.month < b.month ∨ a.month = b.month ∧ a.day < b.day)
    · exact Nat.le_of_lt (dayNumber_lt hdate)
    · have hsame : a.year = b.year ∧ a.month = b.month ∧ a.day = b.day := by omega
      rw [dayNumber, dayNumber, hsame.1, hsame.2.1, hsame.2.2]
  · intro h
    by_cases hdate : b.year < a.year ∨ b.year = a.year ∧
        (b.month < a.month ∨ b.month = a.month ∧ b.day < a.day)
    · exact absurd (dayNumber_lt hdate) (Nat.not_lt.mpr h)
    · omega

theorem seconds_lt_of_day (h : a.dayNumber < b.dayNumber) : a.seconds < b.seconds := by
  have hlast := @secondOfDay_lt a
  rw [seconds, seconds]
  omega

end UtcStamp

namespace DbStamp
variable (a : DbStamp)

/-- `now()::text` -/
def text : List Char :=
  a.utc.dated ' ' (a.utc.timed ('.' :: (digits 6 a.micro ++ ['+', '0', '0'])))

/-- `isoformat`, which leaves out a fraction of zero. -/
def isoformat : List Char :=
  a.utc.dated 'T' (a.utc.timed
    ((if a.micro = 0 then [] else '.' :: digits 6 a.micro) ++ ['+', '0', '0', ':', '0', '0']))

/-- Seconds since the epoch. -/
def time : ℚ := a.utc.seconds + a.micro / 1000000

variable {a} {b : UtcStamp}

theorem text_lt_iff : a.text < b.text ↔ a.utc.dayNumber ≤ b.dayNumber :=
  UtcStamp.dated_lt_iff (by decide)

theorem text_lt_isoformat_iff {b : DbStamp} :
    a.text < b.isoformat ↔ a.utc.dayNumber ≤ b.utc.dayNumber :=
  UtcStamp.dated_lt_iff (by decide)

theorem le_text_iff : b.text ≤ a.text ↔ b.dayNumber < a.utc.dayNumber := by
  rw [← not_lt, text_lt_iff, Nat.not_le]

theorem seconds_le_time : (a.utc.seconds : ℚ) ≤ a.time := by
  have hmicro : (0 : ℚ) ≤ a.micro / 1000000 := by positivity
  rw [time]
  linarith

theorem time_lt : a.time < a.utc.seconds + 1 := by
  have hmicro : (a.micro : ℚ) / 1000000 < 1 := by
    rw [div_lt_one (by norm_num)]
    exact_mod_cast a.microValid
  rw [time]
  linarith

end DbStamp

end Engramia.Library
