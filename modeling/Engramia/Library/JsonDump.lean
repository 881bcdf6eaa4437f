import Engramia.Library.JsonFrames

/-!
Encoding values as JSON text. The encoder is the one of Python: it writes printable ASCII
only, with a blank after each comma and colon. What it writes of a value is read back as that
value, where the decoder may nest as deep and read as many digits.
-/
namespace Engramia.Library.JsonText

section Encoding

/-- The short escapes that the encoder writes. -/
def shortEscapes : List (ℕ × Char) :=
  [(34, '"'), (92, '\\'), (10, 'n'), (13, 'r'), (9, 't'), (12, 'f'), (8, 'b')]

def hexEscape (unit : ℕ) : List Char :=
  ['\\', 'u', Nat.digitChar (unit / 4096), Nat.digitChar (unit / 256 % 16),
    Nat.digitChar (unit / 16 % 16), Nat.digitChar (unit % 16)]

def dumpUnit (unit : ℕ) : List Char :=
  match shortEscapes.lookup unit with
  | some e => ['\\', e]
  | none => if 32 ≤ unit ∧ unit < 127 then [Char.ofNat unit] else hexEscape unit

/-- A code point beyond the first plane is two surrogates. -/
def splitPoint (point : ℕ) : List ℕ :=
  if point < 0x10000 then [point]
  else [0xD800 + (point - 0x10000) / 0x400, 0xDC00 + (point - 0x10000) % 0x400]

def dumpString (points : CodePoints) : List Char :=
  '"' :: ((points.flatMap splitPoint).flatMap dumpUnit ++ ['"'])

def dumpInt (n : ℤ) : List Char :=
  if n < 0 then '-' :: Nat.toDigits 10 n.natAbs else Nat.toDigits 10 n.natAbs

def commas : List (List Char) → List Char
  | [] => []
  | [text] => text
  | text :: texts => text ++ ',' :: ' ' :: commas texts

mutual

/-- `json.dumps` -/
def dump : Value → List Char
  | .null => ['n', 'u', 'l', 'l']
  | .bool true => ['t', 'r', 'u', 'e']
  | .bool false => ['f', 'a', 'l', 's', 'e']
  | .int n => dumpInt n
  | .float literal => literal
  | .str points => dumpString points
  | .list items => '[' :: (commas (dumpItems items) ++ [']'])
  | .dict entries => '{' :: (commas (dumpMembers entries) ++ ['}'])

def dumpItems : List Value → List (List Char)
  | [] => []
  | v :: items => dump v :: dumpItems items

def dumpMembers : List (CodePoints × Value) → List (List Char)
  | [] => []
  | (key, v) :: entries => (dumpString key ++ ':' :: ' ' :: dump v) :: dumpMembers entries

end

def dumpMember (entry : CodePoints × Value) : List Char :=
  dumpString entry.1 ++ ':' :: ' ' :: dump entry.2

theorem dumpItems_eq (items : List Value) : dumpItems items = items.map dump := by
  induction items with
  | nil => simp [dumpItems]
  | cons v items ih => simp [dumpItems, ih]

theorem dumpMembers_eq (entries : List (CodePoints × Value)) :
    dumpMembers entries = entries.map dumpMember := by
  induction entries with
  | nil => simp [dumpMembers]
  | cons entry entries ih => simp [dumpMembers, dumpMember, ih]

example : dump (.list [.int (-12), .str [34, 0x1F600]]) =
    "[-12, \"\\\"\\ud83d\\ude00\"]".toList := by decide

end Encoding

section Strings
variable {rest : List Char}

theorem hexDigit_digitChar : ∀ n < 16, hexDigit (Nat.digitChar n) = some n := by decide

theorem toNat_ofNat : ∀ n < 127, (Char.ofNat n).toNat = n := by decide

theorem scanUnits_escape {unit : ℕ} {e : Char} (h : (unit, e) ∈ shortEscapes) :
    scanUnits ('\\' :: e :: rest) = (scanUnits rest).map (before unit) := by
  have hescapes : ∀ x ∈ shortEscapes, x.2 ≠ 'u' ∧ escapes.lookup x.2 = some x.1 := by decide
  rw [scanUnits.eq_def]
  simp [(hescapes _ h).1, (hescapes _ h).2]

theorem scanUnits_hexEscape {unit : ℕ} (h : unit < 0x10000) :
    scanUnits (hexEscape unit ++ rest) = (scanUnits rest).map (before unit) := by
  have hunit : hexUnit (Nat.digitChar (unit / 4096)) (Nat.digitChar (unit / 256 % 16))
      (Nat.digitChar (unit / 16 % 16)) (Nat.digitChar (unit % 16)) = some unit := by
    simp only [hexUnit, hexDigit_digitChar (unit / 4096) (by omega),
      hexDigit_digitChar _ (Nat.mod_lt _ (by decide : 0 < 16))]
    refine congrArg some ?_
    omega
  rw [scanUnits.eq_def]
  simp [hexEscape, hunit]

theorem scanUnits_dumpUnit {unit : ℕ} (h : unit < 0x10000) :
    scanUnits (dumpUnit unit ++ rest) = (scanUnits rest).map (before unit) := by
  rw [dumpUnit]
  cases he : shortEscapes.lookup unit with
  | some e =>
      obtain ⟨l₁, l₂, hl, _⟩ := List.lookup_eq_some_iff.mp he
      exact scanUnits_escape (hl ▸ List.mem_append_right l₁ List.mem_cons_self)
  | none =>
      dsimp only
      by_cases hprintable : 32 ≤ unit ∧ unit < 127
      · have hc : (Char.ofNat unit).toNat = unit := toNat_ofNat unit hprintable.2
        have hquote : Char.ofNat unit ≠ '"' := by
          intro h
          rw [h] at hc
          simp [← hc, shortEscapes] at he
        have hslash : Char.ofNat unit ≠ '\\' := by
          intro h
          rw [h] at hc
          simp [← hc, shortEscapes] at he
        rw [if_pos hprintable, List.cons_append, List.nil_append, scanUnits.eq_def]
        simp [hquote, hslash, hc, Nat.not_lt.mpr hprintable.1]
      · rw [if_neg hprintable]
        exact scanUnits_hexEscape h

theorem scanUnits_dumpUnits {units : List ℕ} (h : ∀ unit ∈ units, unit < 0x10000) :
    scanUnits (units.flatMap dumpUnit ++ '"' :: rest) = some (units, rest) := by
  induction units with
  | nil =>
      rw [scanUnits.eq_def]
      rfl
  | cons unit units ih =>
      rw [List.flatMap_cons, List.append_assoc, scanUnits_dumpUnit (h unit List.mem_cons_self),
        ih fun u hu => h u (List.mem_cons_of_mem unit hu)]
      rfl

def IsHigh (unit : ℕ) : Prop := 0xD800 ≤ unit ∧ unit < 0xDC00
def IsLow (unit : ℕ) : Prop := 0xDC00 ≤ unit ∧ unit < 0xE000

/-- Code points of which no two would be read as a surrogate pair. -/
def Unpaired : CodePoints → Prop
  | [] => True
  | point :: points =>
      point < 0x110000 ∧ (IsHigh point → ∀ next ∈ points.head?, ¬ IsLow next) ∧ Unpaired points

theorem unpaired_of_lt {points : CodePoints} (h : ∀ point ∈ points, point < 0xD800) :
    Unpaired points := by
  induction points with
  | nil => trivial
  | cons point points ih =>
      have hpoint := h point List.mem_cons_self
      refine ⟨by omega, ?_, ih fun p hp => h p (List.mem_cons_of_mem point hp)⟩
      intro hhigh
      exact absurd hhigh.1 (by omega)

theorem splitPoint_lt {points : CodePoints} (h : Unpaired points) :
    ∀ unit ∈ points.flatMap splitPoint, unit < 0x10000 := by
  induction points with
  | nil => simp
  | cons point points ih =>
      intro unit hunit
      rw [List.flatMap_cons, List.mem_append] at hunit
      cases hunit with
      | inl hunit =>
          have hpoint := h.1
          rw [splitPoint] at hunit
          split at hunit
          · simp only [List.mem_singleton] at hunit
            omega
          · simp only [List.mem_cons, List.not_mem_nil, or_false] at hunit
            omega
      | inr hunit => exact ih h.2.2 unit hunit

/-- The first unit is a low surrogate only if the first code point is one. -/
theorem head_splitPoint {points : CodePoints} {unit : ℕ} {units : List ℕ}
    (hpoints : Unpaired points) (h : points.flatMap splitPoint = unit :: units)
    (hlow : IsLow unit) : points.head? = some unit := by
  cases points with
  | nil => cases h
  | cons point points =>
      rw [List.flatMap_cons, splitPoint] at h
      split at h
      · injection h with hunit
        rw [List.head?_cons, hunit]
      · injection h with hunit
        have hpoint := hpoints.1
        have hge := hlow.1
        omega

theorem joinSurrogates_splitPoint {points : CodePoints} (h : Unpaired points) :
    joinSurrogates (points.flatMap splitPoint) = points := by
  induction points with
  | nil => rfl
  | cons point points ih =>
      have htail := ih h.2.2
      have hpoint := h.1
      rw [List.flatMap_cons, splitPoint]
      split
      case isTrue =>
          cases hunits : points.flatMap splitPoint with
          | nil =>
              rw [hunits] at htail
              rw [← htail]
              rfl
          | cons unit units =>
              have hpair : ¬ (IsHigh point ∧ IsLow unit) := by
                intro hpair
                exact h.2.1 hpair.1 unit (head_splitPoint h.2.2 hunits hpair.2) hpair.2
              rw [hunits] at htail
              rw [List.cons_append, List.nil_append, joinSurrogates]
              exact (if_neg hpair).trans (congrArg (point :: ·) htail)
      case isFalse =>
          rw [List.cons_append, List.cons_append, List.nil_append, joinSurrogates,
            if_pos (by omega), htail]
          refine congrArg (· :: points) ?_
          omega

theorem scanString_dump {points : CodePoints} (h : Unpaired points) :
    scanString ((points.flatMap splitPoint).flatMap dumpUnit ++ '"' :: rest) =
      .ok (points, rest) := by
  rw [scanString, scanUnits_dumpUnits (splitPoint_lt h)]
  simp only [joinSurrogates_splitPoint h]

end Strings

section Numbers
variable {L : Limits} {rest : List Char}

theorem toDigits_head {n : ℕ} (h : 0 < n) : (Nat.toDigits 10 n).head? ≠ some '0' := by
  induction n using Nat.strong_induction_on with
  | _ n ih =>
      by_cases hn : n < 10
      · rw [Nat.toDigits_of_lt_base hn]
        have hdigits : ∀ m < 10, 0 < m → Nat.digitChar m ≠ '0' := by decide
        simpa using hdigits n hn h
      · rw [Nat.toDigits_of_base_le (by decide) (by omega)]
        have htail := ih (n / 10) (by omega) (by omega)
        cases hdigits : Nat.toDigits 10 (n / 10) with
        | nil => exact absurd hdigits Nat.toDigits_ne_nil
        | cons c digits =>
            rw [hdigits] at htail
            exact htail

theorem splitDigits_toDigits (n : ℕ) :
    splitDigits (Nat.toDigits 10 n) = (Nat.toDigits 10 n, []) := by
  have hdigits : ∀ c ∈ Nat.toDigits 10 n, c.isDigit := by
    intro c hc
    exact Nat.isDigit_of_mem_toDigits (by decide) (by decide) hc
  rw [splitDigits, List.takeWhile_eq_self_iff.mpr hdigits,
    List.dropWhile_eq_nil_iff.mpr hdigits]

theorem splitWhole_toDigits (n : ℕ) :
    splitWhole (Nat.toDigits 10 n) = (Nat.toDigits 10 n, []) := by
  cases n with
  | zero => rfl
  | succ n =>
      have hhead := toDigits_head (Nat.succ_pos n)
      have hall := splitDigits_toDigits (n + 1)
      cases hdigits : Nat.toDigits 10 (n + 1) with
      | nil => exact absurd hdigits Nat.toDigits_ne_nil
      | cons c tail =>
          rw [hdigits] at hhead hall
          rw [splitWhole, if_neg (by simpa using hhead), hall]

theorem natOfDigits_toDigits (n : ℕ) : natOfDigits (Nat.toDigits 10 n) = n := by
  have h := Nat.ofDigitChars_ten_toDigits (n := n)
  rwa [Nat.ofDigitChars_eq_foldl] at h

/-- The decoder reads as many digits as the integer has. -/
def DigitsFit (L : Limits) (n : ℤ) : Prop :=
  L.digits = 0 ∨ (Nat.toDigits 10 n.natAbs).length ≤ L.digits

theorem splitSign_toDigits (n : ℕ) :
    splitSign ['-'] (Nat.toDigits 10 n) = ([], Nat.toDigits 10 n) := by
  cases hdigits : Nat.toDigits 10 n with
  | nil => rfl
  | cons c tail =>
      have hmem : c ∈ Nat.toDigits 10 n := by simp [hdigits]
      have hc : c.isDigit := Nat.isDigit_of_mem_toDigits (by decide) (by decide) hmem
      have hminus : c ≠ '-' := by
        intro h
        rw [h] at hc
        exact absurd hc (by decide)
      simp [splitSign, hminus]

theorem scanNumber_toDigits {n : ℕ} (h : DigitsFit L n) :
    scanNumber L (Nat.toDigits 10 n) = .ok (.int n, []) ∧
      scanNumber L ('-' :: Nat.toDigits 10 n) = .ok (.int (-n), []) := by
  have hfit : ¬ (L.digits ≠ 0 ∧ L.digits < (Nat.toDigits 10 n).length) := by
    cases h with
    | inl h => simp [h]
    | inr h => exact fun hlt => absurd hlt.2 (Nat.not_lt.mpr h)
  have hminus : splitSign ['-'] ('-' :: Nat.toDigits 10 n) = (['-'], Nat.toDigits 10 n) := rfl
  refine ⟨?_, ?_⟩
  · simp [scanNumber, splitSign_toDigits, splitWhole_toDigits, splitFraction, splitExponent,
      hfit, natOfDigits_toDigits, Nat.toDigits_ne_nil]
  · simp [scanNumber, hminus, splitWhole_toDigits, splitFraction, splitExponent, hfit,
      natOfDigits_toDigits, Nat.toDigits_ne_nil]

theorem scanNumber_dumpInt {n : ℤ} (h : DigitsFit L n) :
    scanNumber L (dumpInt n) = .ok (.int n, []) := by
  cases n with
  | ofNat n => exact (scanNumber_toDigits h).1
  | negSucc n =>
      rw [dumpInt, if_pos (Int.negSucc_lt_zero n)]
      exact (scanNumber_toDigits (n := n + 1) h).2

theorem scanScalar_of_scanNumber {text : List Char} {x : Value × List Char}
    (h : scanNumber L text = .ok x) : scanScalar L text = .ok x := by
  rw [scanScalar]
  cases hfind : constants.find? fun x => x.1.isPrefixOf text with
  | none => exact h
  | some y =>
      have hprefix := List.find?_some hfind
      obtain ⟨tail, htail⟩ := List.isPrefixOf_iff_prefix.mp hprefix
      rw [← htail, scanNumber_constant L (List.mem_of_find?_eq_some hfind)] at h
      cases h

/-- Where a scanner of numbers leaves nothing, the text is of the characters of numbers. -/
theorem scanNumber_isNumeral {text : List Char} {v : Value}
    (h : scanNumber L text = .ok (v, [])) : ∀ c ∈ text, isNumeral c := by
  intro c hc
  by_contra hn
  obtain ⟨used, left, htext⟩ := List.append_of_mem hc
  rw [htext, scanNumber_append L used (ends_cons.mpr (by simpa using hn))] at h
  cases hused : scanNumber L used with
  | error e =>
      rw [hused] at h
      cases h
  | ok x =>
      rw [hused] at h
      injection h with h
      injection h with _ h
      exact absurd h (by simp)

end Numbers

section Values
variable {L : Limits}

/-- A value that a decoder reads which may enter so many levels. -/
inductive Readable (L : Limits) : ℕ → Value → Prop
  | null {depth} : Readable L depth .null
  | bool {depth b} : Readable L depth (.bool b)
  | int {depth n} (h : DigitsFit L n) : Readable L depth (.int n)
  | float {depth literal} (h : scanScalar L literal = .ok (.float literal, [])) :
      Readable L depth (.float literal)
  | str {depth points} (h : Unpaired points) : Readable L depth (.str points)
  | list {depth items} (h : ∀ v ∈ items, Readable L depth v) : Readable L (depth + 1) (.list items)
  | dict {depth entries} (hkeys : (entries.map Prod.fst).Nodup)
      (hpoints : ∀ x ∈ entries, Unpaired x.1) (h : ∀ x ∈ entries, Readable L depth x.2) :
      Readable L (depth + 1) (.dict entries)

/-- Neither white space nor a bracket that closes. -/
def IsOpening (c : Char) : Prop := isSpace c = false ∧ c ≠ ']' ∧ c ≠ '}'

/-- A scanner takes the text as the value, before anything that ends a number. -/
structure Scans {α : Type} (scan : Scan α) (text : List Char) (x : α) : Prop where
  reads : ∀ rest, Ends rest → scan (text ++ rest) = .ok (x, rest)
  opens : ∃ c tail, text = c :: tail ∧ IsOpening c

/-- The characters that no constant and no number begins with. -/
def marks : List Char := [' ', '\t', '\n', '\r', ']', '}', '"', '{', '[']

theorem opening_of_not_mem {c : Char} (h : c ∉ marks) : IsOpening c := by
  simp only [marks, List.mem_cons, List.not_mem_nil, or_false, not_or] at h
  simp [IsOpening, isSpace, h]

theorem scanScalar_head {c : Char} {text : List Char} {x : Value × List Char}
    (h : scanScalar L (c :: text) = .ok x) : c ∉ marks := by
  rw [scanScalar] at h
  cases hfind : constants.find? fun x => x.1.isPrefixOf (c :: text) with
  | some y =>
      have hconstants : ∀ y ∈ constants, y.1 ≠ [] ∧ ∀ d ∈ y.1.head?, d ∉ marks := by
        simp [constants, marks]
      have hy := hconstants y (List.mem_of_find?_eq_some hfind)
      have hprefix := List.find?_some hfind
      obtain ⟨tail, htail⟩ := List.isPrefixOf_iff_prefix.mp hprefix
      cases hname : y.1 with
      | nil => exact absurd hname hy.1
      | cons d name =>
          rw [hname] at htail
          injection htail with hd
          rw [← hd]
          exact hy.2 d (by simp [hname])
  | none =>
      rw [hfind] at h
      intro hc
      have hmarks : ∀ c ∈ marks, isNumeral c = false := by simp [marks, isNumeral]
      have hends : Ends (c :: text) := ends_cons.mpr (hmarks c hc)
      have hnothing := scanNumber_append L [] hends
      rw [List.nil_append] at hnothing
      rw [hnothing] at h
      cases h

theorem scans_scalar {depth : ℕ} {text : List Char} {v : Value}
    (h : scanScalar L text = .ok (v, [])) : Scans (scanOnce L depth) text v := by
  obtain ⟨used, hne, htext, hframe⟩ := framed_scanScalar L text v [] h
  rw [List.append_nil] at htext
  cases text with
  | nil => exact absurd htext.symm hne
  | cons c tail =>
      have hc := scanScalar_head h
      refine ⟨?_, c, tail, rfl, opening_of_not_mem hc⟩
      intro rest hrest
      rw [List.cons_append, scanOnce_scalar]
      · rw [← List.cons_append, htext]
        exact hframe (Or.inr (by simp [Ends])) rest (Or.inr hrest)
      · intro hmem
        apply hc
        simp only [List.mem_cons, List.not_mem_nil, or_false] at hmem
        simp [marks, hmem]

theorem scans_string {depth : ℕ} {points : CodePoints} (h : Unpaired points) :
    Scans (scanOnce L depth) (dumpString points) (.str points) where
  reads rest hrest := by
    rw [dumpString, List.cons_append, scanOnce_quote, List.append_assoc]
    exact bind_of_ok (scanString_dump h)
  opens := ⟨'"', _, rfl, by decide, by decide, by decide⟩

theorem skipSpace_opening {c : Char} {text : List Char} (h : IsOpening c) :
    skipSpace (c :: text) = c :: text := by
  simp [skipSpace, h.1]

theorem skipSpace_opens {α : Type} {scan : Scan α} {text : List Char} {x : α}
    (h : Scans scan text x) (rest : List Char) : skipSpace (text ++ rest) = text ++ rest := by
  obtain ⟨c, tail, htext, hc⟩ := h.opens
  rw [htext, List.cons_append, skipSpace_opening hc]

theorem scans_member {value : Scan Value} {key : CodePoints} {v : Value} (hkey : Unpaired key)
    (hv : Scans value (dump v) v) : Scans (scanMember value) (dumpMember (key, v)) (key, v) where
  reads rest hrest := by
    simp only [dumpMember, dumpString, List.cons_append, List.append_assoc, scanMember, if_true]
    refine (bind_of_ok (scanString_dump hkey)).trans ?_
    refine (bind_of_ok (a := ((), ' ' :: (dump v ++ rest))) rfl).trans ?_
    have hskip : skipSpace (' ' :: (dump v ++ rest)) = dump v ++ rest := skipSpace_opens hv rest
    refine (bind_of_ok (a := (v, rest)) ?_).trans rfl
    dsimp only
    rw [hskip]
    exact hv.reads rest hrest
  opens := ⟨'"', _, rfl, by decide, by decide, by decide⟩

section Sequences
variable {α : Type} {item : Scan α} {write : α → List Char} {close : Char}

theorem length_le_commas {xs : List α} (h : ∀ x ∈ xs, Scans item (write x) x) :
    xs.length ≤ (commas (xs.map write)).length := by
  induction xs with
  | nil => exact Nat.zero_le _
  | cons x xs ih =>
      obtain ⟨c, tail, htext, _⟩ := (h x List.mem_cons_self).opens
      have htail := ih fun y hy => h y (List.mem_cons_of_mem x hy)
      cases xs with
      | nil => simp [commas, htext]
      | cons y xs =>
          simp only [List.map_cons, commas, htext, List.length_append, List.length_cons] at htail ⊢
          omega

theorem commas_cons (text : List Char) (texts : List (List Char)) :
    ∃ tail, commas (text :: texts) = text ++ tail := by
  cases texts with
  | nil => exact ⟨[], (List.append_nil text).symm⟩
  | cons next texts => exact ⟨_, rfl⟩

theorem skipSpace_commas {x : α} {xs : List α} (h : Scans item (write x) x) (rest : List Char) :
    skipSpace (commas ((x :: xs).map write) ++ rest) = commas ((x :: xs).map write) ++ rest := by
  obtain ⟨tail, htail⟩ := commas_cons (write x) (xs.map write)
  rw [List.map_cons, htail, List.append_assoc, skipSpace_opens h]

/-- A closing bracket. -/
structure IsClosing (close : Char) : Prop where
  space : isSpace close = false
  numeral : isNumeral close = false
  comma : close ≠ ','
  opening : ¬ IsOpening close

theorem scanItems_commas (hclose : IsClosing close) {xs : List α} (hne : xs ≠ [])
    (h : ∀ x ∈ xs, Scans item (write x) x) {n : ℕ} (hn : xs.length ≤ n) (rest : List Char) :
    scanItems item close n (commas (xs.map write) ++ close :: rest) = .ok (xs, rest) := by
  induction xs generalizing n with
  | nil => exact absurd rfl hne
  | cons x xs ih =>
      have hx := h x List.mem_cons_self
      cases n with
      | zero => exact absurd hn (by simp)
      | succ n =>
          cases xs with
          | nil =>
              simp only [List.map_cons, List.map_nil, commas, scanItems]
              refine (bind_of_ok (hx.reads _ (ends_cons.mpr hclose.numeral))).trans ?_
              simp [skipSpace, hclose.space]
          | cons y xs =>
              have hxs : ∀ z ∈ y :: xs, Scans item (write z) z := by
                intro z hz
                exact h z (List.mem_cons_of_mem x hz)
              have htail := ih (List.cons_ne_nil y xs) hxs (n := n) (by simpa using hn)
              simp only [List.map_cons, commas, scanItems, List.append_assoc, List.cons_append]
              refine (bind_of_ok (hx.reads _ (ends_cons.mpr rfl))).trans ?_
              have hcomma : ∀ text, skipSpace (',' :: text) = ',' :: text := fun text => rfl
              have hblank : ∀ text, skipSpace (' ' :: text) = skipSpace text := fun text => rfl
              have hnext : skipSpace (commas ((y :: xs).map write) ++ close :: rest) = _ :=
                skipSpace_commas (hxs y List.mem_cons_self) _
              rw [List.map_cons] at hnext htail
              simp only [hcomma, if_neg (Ne.symm hclose.comma), if_true, hblank, hnext]
              exact bind_of_ok htail

theorem scanBody_commas (hclose : IsClosing close) {xs : List α}
    (h : ∀ x ∈ xs, Scans item (write x) x) (rest : List Char) :
    scanBody item close (commas (xs.map write) ++ close :: rest) = .ok (xs, rest) := by
  cases xs with
  | nil => simp [scanBody, commas, skipSpace, hclose.space]
  | cons x xs =>
      have hx := h x List.mem_cons_self
      have hlength := length_le_commas h
      have hfuel : (x :: xs).length ≤ (commas ((x :: xs).map write) ++ close :: rest).length := by
        rw [List.length_append]
        omega
      have hitems := scanItems_commas hclose (List.cons_ne_nil x xs) h hfuel rest
      rw [scanBody, skipSpace_commas hx]
      obtain ⟨c, tail, htext, hc⟩ := hx.opens
      obtain ⟨after, hafter⟩ := commas_cons (write x) (xs.map write)
      have hcs : commas ((x :: xs).map write) ++ close :: rest =
          c :: (tail ++ (after ++ close :: rest)) := by
        rw [List.map_cons, hafter, htext]
        simp
      have hne : c ≠ close := by
        intro h
        exact hclose.opening (h ▸ hc)
      rw [hcs] at hitems ⊢
      simp only [if_neg hne]
      exact hitems

end Sequences

theorem assign_of_not_mem {key : CodePoints} {v : Value} {entries : List (CodePoints × Value)}
    (h : key ∉ entries.map Prod.fst) : assign key v entries = entries ++ [(key, v)] := by
  induction entries with
  | nil => rfl
  | cons x entries ih =>
      simp only [List.map_cons, List.mem_cons, not_or] at h
      rw [assign, if_neg (Ne.symm h.1), ih h.2]
      rfl

/-- Members with different keys are the entries. -/
theorem dictOf_nodup {members : List (CodePoints × Value)}
    (h : (members.map Prod.fst).Nodup) : dictOf members = .dict members := by
  have hfold : ∀ entries : List (CodePoints × Value),
      ((entries ++ members).map Prod.fst).Nodup →
        members.foldl (fun entries x => assign x.1 x.2 entries) entries = entries ++ members := by
    clear h
    induction members with
    | nil => simp
    | cons x members ih =>
        intro entries hnodup
        have hx : x.1 ∉ entries.map Prod.fst := by
          rw [List.map_append, List.map_cons, List.nodup_append] at hnodup
          intro hmem
          exact hnodup.2.2 x.1 hmem x.1 List.mem_cons_self rfl
        rw [List.foldl_cons, assign_of_not_mem hx, ih _ (by simpa using hnodup)]
        simp
  exact congrArg Value.dict (hfold [] h)

theorem isClosing_bracket : IsClosing ']' where
  space := rfl
  numeral := rfl
  comma := by decide
  opening h := h.2.1 rfl

theorem isClosing_brace : IsClosing '}' where
  space := rfl
  numeral := rfl
  comma := by decide
  opening h := h.2.2 rfl

/-- What is written of a value is read as that value. -/
theorem scans_dump {depth : ℕ} {v : Value} (h : Readable L depth v) :
    Scans (scanOnce L depth) (dump v) v := by
  induction h with
  | null => exact scans_scalar rfl
  | @bool depth b =>
      cases b with
      | true => exact scans_scalar rfl
      | false => exact scans_scalar rfl
  | int h => exact scans_scalar (scanScalar_of_scanNumber (scanNumber_dumpInt h))
  | float h => exact scans_scalar h
  | str h => exact scans_string h
  | @list depth items h ih =>
      refine ⟨?_, '[', commas (dumpItems items) ++ [']'], rfl, by decide, by decide, by decide⟩
      intro rest hrest
      have hbody := scanBody_commas isClosing_bracket ih rest
      rw [dump, dumpItems_eq, List.cons_append, List.append_assoc, scanOnce]
      exact bind_of_ok hbody
  | @dict depth entries hkeys hpoints h ih =>
      refine ⟨?_, '{', commas (dumpMembers entries) ++ ['}'], rfl, by decide, by decide, by decide⟩
      intro rest hrest
      have hmembers : ∀ x ∈ entries, Scans (scanMember (scanOnce L depth)) (dumpMember x) x := by
        intro x hx
        exact scans_member (hpoints x hx) (ih x hx)
      have hbody := scanBody_commas isClosing_brace hmembers rest
      rw [dump, dumpMembers_eq, List.cons_append, List.append_assoc, scanOnce]
      refine (bind_of_ok hbody).trans ?_
      simp only [dictOf_nodup hkeys]

theorem loads_dump {v : Value} (h : Readable L L.nesting v) (space : List Char)
    (hspace : space.all isSpace) : loads L (dump v ++ space) = .ok v := by
  have hscans := scans_dump h
  have hends : Ends space := by
    intro c hc
    exact isNumeral_of_isSpace (List.all_eq_true.mp hspace c (List.mem_of_mem_head? hc))
  have hskip : skipSpace space = [] := by
    rw [skipSpace, List.dropWhile_eq_nil_iff]
    exact List.all_eq_true.mp hspace
  rw [loads, skipSpace_opens hscans]
  refine (bind_of_ok (hscans.reads space hends)).trans ?_
  simp only [hskip, if_true]

/-- A character from the blank to the tilde. -/
def IsPrintable (c : Char) : Prop := 32 ≤ c.toNat ∧ c.toNat < 127

instance : DecidablePred IsPrintable := fun c => by unfold IsPrintable; infer_instance

theorem printable_digitChar (n : ℕ) : IsPrintable (Nat.digitChar n) := by
  by_cases hn : n < 16
  · have hdigits : ∀ n < 16, IsPrintable (Nat.digitChar n) := by decide
    exact hdigits n hn
  · have hstar : Nat.digitChar n = '*' := by
      rw [Nat.digitChar]
      simp (disch := omega) only [if_neg]
    rw [hstar]
    decide

theorem printable_dumpUnit (unit : ℕ) : ∀ c ∈ dumpUnit unit, IsPrintable c := by
  rw [dumpUnit]
  cases he : shortEscapes.lookup unit with
  | some e =>
      have hescapes : ∀ x ∈ shortEscapes, IsPrintable x.2 := by decide
      obtain ⟨l₁, l₂, hl, _⟩ := List.lookup_eq_some_iff.mp he
      have he := hescapes (unit, e) (hl ▸ List.mem_append_right l₁ List.mem_cons_self)
      simp only [List.mem_cons, List.not_mem_nil, or_false, forall_eq_or_imp, forall_eq]
      exact ⟨by decide, he⟩
  | none =>
      dsimp only
      split
      case isTrue h =>
          simp only [List.mem_singleton, forall_eq]
          rw [IsPrintable, toNat_ofNat unit h.2]
          exact h
      case isFalse =>
          simp only [hexEscape, List.mem_cons, List.not_mem_nil, or_false, forall_eq_or_imp,
            forall_eq]
          exact ⟨by decide, by decide, printable_digitChar _, printable_digitChar _,
            printable_digitChar _, printable_digitChar _⟩

theorem printable_dumpString (points : CodePoints) : ∀ c ∈ dumpString points, IsPrintable c := by
  intro c hc
  simp only [dumpString, List.mem_cons, List.mem_append, List.mem_flatMap, List.not_mem_nil,
    or_false] at hc
  obtain hc | ⟨unit, _, hc⟩ | hc := hc
  · exact hc ▸ by decide
  · exact printable_dumpUnit unit c hc
  · exact hc ▸ by decide

theorem printable_numeral {c : Char} (h : isNumeral c) : IsPrintable c := by
  simp only [isNumeral, Bool.or_eq_true, decide_eq_true_eq] at h
  obtain ((((h | h) | h) | h) | h) | h := h
  · have hlow : '0'.toNat ≤ c.toNat := (Bool.and_eq_true_iff.mp h).1 |> of_decide_eq_true
    have hhigh : c.toNat ≤ '9'.toNat := (Bool.and_eq_true_iff.mp h).2 |> of_decide_eq_true
    exact ⟨le_trans (by decide) hlow, lt_of_le_of_lt hhigh (by decide)⟩
  all_goals exact h ▸ by decide

theorem printable_scalar {text : List Char} {v : Value} (h : scanScalar L text = .ok (v, [])) :
    ∀ c ∈ text, IsPrintable c := by
  rw [scanScalar] at h
  cases hfind : constants.find? fun x => x.1.isPrefixOf text with
  | some x =>
      have hconstants : ∀ x ∈ constants, ∀ c ∈ x.1, IsPrintable c := by
        simp [constants, IsPrintable]
      have hprefix := List.find?_some hfind
      obtain ⟨tail, htail⟩ := List.isPrefixOf_iff_prefix.mp hprefix
      rw [hfind, ← htail] at h
      injection h with h
      injection h with _ hnil
      rw [List.drop_left] at hnil
      rw [← htail, hnil, List.append_nil]
      exact hconstants x (List.mem_of_find?_eq_some hfind)
  | none =>
      rw [hfind] at h
      intro c hc
      exact printable_numeral (scanNumber_isNumeral h c hc)

theorem printable_commas {texts : List (List Char)}
    (h : ∀ text ∈ texts, ∀ c ∈ text, IsPrintable c) :
    ∀ c ∈ commas texts, IsPrintable c := by
  induction texts with
  | nil => simp [commas]
  | cons text texts ih =>
      have htail := ih fun t ht => h t (List.mem_cons_of_mem text ht)
      have htext := h text List.mem_cons_self
      cases texts with
      | nil => exact htext
      | cons next texts =>
          intro c hc
          simp only [commas, List.mem_append, List.mem_cons] at hc
          obtain hc | hc | hc | hc := hc
          · exact htext c hc
          · exact hc ▸ by decide
          · exact hc ▸ by decide
          · exact htail c (by simpa [commas] using hc)

theorem printable_dump {depth : ℕ} {v : Value} (h : Readable L depth v) :
    ∀ c ∈ dump v, IsPrintable c := by
  induction h with
  | null => exact printable_scalar (L := L) (v := .null) rfl
  | @bool depth b =>
      cases b with
      | true => exact printable_scalar (L := L) (v := .bool true) rfl
      | false => exact printable_scalar (L := L) (v := .bool false) rfl
  | int h => exact printable_scalar (scanScalar_of_scanNumber (scanNumber_dumpInt h))
  | float h => exact printable_scalar h
  | str h => exact printable_dumpString _
  | @list depth items h ih =>
      intro c hc
      simp only [dump, dumpItems_eq, List.mem_cons, List.mem_append, List.not_mem_nil,
        or_false] at hc
      obtain hc | hc | hc := hc
      · exact hc ▸ by decide
      · refine printable_commas ?_ c hc
        intro text htext
        obtain ⟨v, hv, hdump⟩ := List.mem_map.mp htext
        exact hdump ▸ ih v hv
      · exact hc ▸ by decide
  | @dict depth entries hkeys hpoints h ih =>
      intro c hc
      simp only [dump, dumpMembers_eq, List.mem_cons, List.mem_append, List.not_mem_nil,
        or_false] at hc
      obtain hc | hc | hc := hc
      · exact hc ▸ by decide
      · refine printable_commas ?_ c hc
        intro text htext
        obtain ⟨x, hx, hdump⟩ := List.mem_map.mp htext
        intro c hc
        rw [← hdump, dumpMember, List.mem_append, List.mem_cons, List.mem_cons] at hc
        obtain hc | hc | hc | hc := hc
        · exact printable_dumpString x.1 c hc
        · exact hc ▸ by decide
        · exact hc ▸ by decide
        · exact ih x hx c hc
      · exact hc ▸ by decide

end Values

end Engramia.Library.JsonText
