import Mathlib.Algebra.Group.Nat.Defs
import Mathlib.Data.List.TakeWhile

/-!
Decoding JSON text. A scanner takes a value off the front of a text and leaves the rest. The
decoder is the one of Python: it reads constants beyond JSON, keeps the last value of a key,
and fails in three ways, as the text is no JSON, nests deeper than it may recurse, or has an
integer of too many digits.
-/
namespace Engramia.Library.JsonText

/-- The characters of a decoded string, which may be lone surrogates. -/
abbrev CodePoints : Type := List ℕ

def codePoints (s : String) : CodePoints := s.toList.map Char.toNat

/-- A decoded value. A float is the text it is read from. -/
inductive Value where
  | null
  | bool (b : Bool)
  | int (n : ℤ)
  | float (literal : List Char)
  | str (points : CodePoints)
  | list (items : List Value)
  | dict (entries : List (CodePoints × Value))

def Value.IsDict : Value → Prop
  | .dict _ => True
  | _ => False

/-- How deep values may nest, and how many digits an integer may have, where zero is no limit. -/
structure Limits where
  nesting : ℕ
  digits : ℕ

inductive Failure where
  | decode
  | nesting
  | digits
deriving DecidableEq

/-- Takes a value off a text and leaves the rest. -/
abbrev Scan (α : Type) : Type := List Char → Except Failure (α × List Char)

def isSpace (c : Char) : Bool := c = ' ' || c = '\t' || c = '\n' || c = '\r'

def skipSpace (text : List Char) : List Char := text.dropWhile isSpace

section Strings

def hexDigit (c : Char) : Option ℕ :=
  if c.isDigit then some (c.toNat - 48)
  else if 'a' ≤ c ∧ c ≤ 'f' then some (c.toNat - 87)
  else if 'A' ≤ c ∧ c ≤ 'F' then some (c.toNat - 55)
  else none

def hexUnit (a b c d : Char) : Option ℕ := do
  some (4096 * (← hexDigit a) + 256 * (← hexDigit b) + 16 * (← hexDigit c) + (← hexDigit d))

/-- What a character after a backslash stands for. -/
def escapes : List (Char × ℕ) :=
  [('"', 34), ('\\', 92), ('/', 47), ('b', 8), ('f', 12), ('n', 10), ('r', 13), ('t', 9)]

def before (unit : ℕ) (scanned : List ℕ × List Char) : List ℕ × List Char :=
  (unit :: scanned.1, scanned.2)

/-- The units up to the closing quote. -/
def scanUnits : List Char → Option (List ℕ × List Char)
  | [] => none
  | c :: text =>
      if c = '"' then some ([], text)
      else if c = '\\' then
        match text with
        | [] => none
        | e :: text =>
            if e = 'u' then
              match text with
              | a :: b :: c :: d :: text =>
                  (hexUnit a b c d).bind fun unit => (scanUnits text).map (before unit)
              | _ => none
            else (escapes.lookup e).bind fun unit => (scanUnits text).map (before unit)
      else if c.toNat < 32 then none
      else (scanUnits text).map (before c.toNat)

/-- Two surrogates that follow each other are one code point. -/
def joinSurrogates : List ℕ → List ℕ
  | high :: low :: units =>
      if (0xD800 ≤ high ∧ high < 0xDC00) ∧ (0xDC00 ≤ low ∧ low < 0xE000) then
        (0x10000 + 0x400 * (high - 0xD800) + (low - 0xDC00)) :: joinSurrogates units
      else high :: joinSurrogates (low :: units)
  | units => units

/-- A string after its opening quote. -/
def scanString : Scan CodePoints := fun text =>
  match scanUnits text with
  | some (units, rest) => .ok (joinSurrogates units, rest)
  | none => .error .decode

end Strings

section Numbers

def splitDigits (text : List Char) : List Char × List Char :=
  (text.takeWhile Char.isDigit, text.dropWhile Char.isDigit)

/-- One of the signs, if it is there. -/
def splitSign (signs : List Char) : List Char → List Char × List Char
  | [] => ([], [])
  | c :: text => if c ∈ signs then ([c], text) else ([], c :: text)

/-- No digit follows a zero. -/
def splitWhole : List Char → List Char × List Char
  | [] => ([], [])
  | c :: text => if c = '0' then (['0'], text) else splitDigits (c :: text)

def splitFraction : List Char → List Char × List Char
  | [] => ([], [])
  | c :: text =>
      let (digits, rest) := splitDigits text
      if c = '.' ∧ digits ≠ [] then (c :: digits, rest) else ([], c :: text)

def splitExponent : List Char → List Char × List Char
  | [] => ([], [])
  | c :: text =>
      let (sign, unsigned) := splitSign ['-', '+'] text
      let (digits, rest) := splitDigits unsigned
      if (c = 'e' ∨ c = 'E') ∧ digits ≠ [] then (c :: (sign ++ digits), rest) else ([], c :: text)

def natOfDigits (digits : List Char) : ℕ :=
  digits.foldl (fun n c => 10 * n + (c.toNat - 48)) 0

def scanNumber (L : Limits) : Scan Value := fun text =>
  let (sign, text) := splitSign ['-'] text
  let (whole, text) := splitWhole text
  let (fraction, text) := splitFraction text
  let (exponent, text) := splitExponent text
  if whole = [] then .error .decode
  else if fraction ≠ [] ∨ exponent ≠ [] then
    .ok (.float (sign ++ whole ++ fraction ++ exponent), text)
  else if L.digits ≠ 0 ∧ L.digits < whole.length then .error .digits
  else
    let n : ℤ := natOfDigits whole
    .ok (.int (if sign = [] then n else -n), text)

end Numbers

section Values

def constants : List (List Char × Value) :=
  [("null".toList, .null), ("true".toList, .bool true), ("false".toList, .bool false),
    ("NaN".toList, .float "NaN".toList), ("Infinity".toList, .float "Infinity".toList),
    ("-Infinity".toList, .float "-Infinity".toList)]

def scanScalar (L : Limits) : Scan Value := fun text =>
  match constants.find? fun x => x.1.isPrefixOf text with
  | some (name, value) => .ok (value, text.drop name.length)
  | none => scanNumber L text

/-- Items with commas between them, up to the closing bracket. Every item takes a character,
so that as many are enough as the text has characters. -/
def scanItems {α : Type} (item : Scan α) (close : Char) : ℕ → Scan (List α)
  | 0, _ => .error .decode
  | n + 1, text => do
      let (x, text) ← item text
      match skipSpace text with
      | [] => .error .decode
      | c :: text =>
          if c = close then .ok ([x], text)
          else if c = ',' then do
            let (xs, text) ← scanItems item close n (skipSpace text)
            .ok (x :: xs, text)
          else .error .decode

/-- What is between two brackets, after the first one. -/
def scanBody {α : Type} (item : Scan α) (close : Char) : Scan (List α) := fun text =>
  match skipSpace text with
  | [] => .error .decode
  | c :: text =>
      if c = close then .ok ([], text)
      else scanItems item close (c :: text).length (c :: text)

/-- A character after white space. -/
def expect (c : Char) : Scan Unit := fun text =>
  match skipSpace text with
  | [] => .error .decode
  | d :: text => if d = c then .ok ((), text) else .error .decode

def scanMember (value : Scan Value) : Scan (CodePoints × Value)
  | [] => .error .decode
  | c :: text =>
      if c = '"' then do
        let (key, text) ← scanString text
        let (_, text) ← expect ':' text
        let (v, text) ← value (skipSpace text)
        .ok ((key, v), text)
      else .error .decode

/-- `d[key] = v` -/
def assign (key : CodePoints) (v : Value) :
    List (CodePoints × Value) → List (CodePoints × Value)
  | [] => [(key, v)]
  | x :: entries => if x.1 = key then (key, v) :: entries else x :: assign key v entries

def dictOf (members : List (CodePoints × Value)) : Value :=
  .dict (members.foldl (fun entries x => assign x.1 x.2 entries) [])

/-- `scan_once`, where so many levels may be entered. -/
def scanOnce (L : Limits) : ℕ → Scan Value
  | _, [] => .error .decode
  | depth, c :: text =>
      if c = '"' then do
        let (points, text) ← scanString text
        .ok (.str points, text)
      else if c = '{' then
        match depth with
        | 0 => .error .nesting
        | depth + 1 => do
            let (members, text) ← scanBody (scanMember (scanOnce L depth)) '}' text
            .ok (dictOf members, text)
      else if c = '[' then
        match depth with
        | 0 => .error .nesting
        | depth + 1 => do
            let (items, text) ← scanBody (scanOnce L depth) ']' text
            .ok (.list items, text)
      else scanScalar L (c :: text)

theorem scanOnce_nil (L : Limits) (depth : ℕ) : scanOnce L depth [] = .error .decode := by
  cases depth with
  | zero => rfl
  | succ depth => rfl

theorem scanOnce_quote (L : Limits) (depth : ℕ) (text : List Char) :
    scanOnce L depth ('"' :: text) = (do
      let (points, text) ← scanString text
      .ok (.str points, text)) := by
  cases depth with
  | zero => rfl
  | succ depth => rfl

theorem scanOnce_scalar (L : Limits) (depth : ℕ) {c : Char} (text : List Char)
    (h : c ∉ ['"', '{', '[']) : scanOnce L depth (c :: text) = scanScalar L (c :: text) := by
  simp only [List.mem_cons, List.not_mem_nil, or_false, not_or] at h
  cases depth with
  | zero => simp only [scanOnce, if_neg h.1, if_neg h.2.1, if_neg h.2.2]
  | succ depth => simp only [scanOnce, if_neg h.1, if_neg h.2.1, if_neg h.2.2]

def rawDecode (L : Limits) : Scan Value := scanOnce L L.nesting

/-- `json.loads` -/
def loads (L : Limits) (text : List Char) : Except Failure Value := do
  let (v, rest) ← rawDecode L (skipSpace text)
  if skipSpace rest = [] then .ok v else .error .decode

/-- The nearest double of a float is zero. -/
def roundsToZero (literal : List Char) : Bool :=
  let (_, text) := splitSign ['-'] literal
  let (whole, text) := splitWhole text
  let (fraction, text) := splitFraction text
  let (exponent, _) := splitExponent text
  let decimals := fraction.drop 1
  let (sign, digits) := splitSign ['-', '+'] (exponent.drop 1)
  let size : ℤ := natOfDigits digits
  let power := (if sign = ['-'] then -size else size) - decimals.length
  let mantissa := natOfDigits (whole ++ decimals)
  whole ≠ [] && (mantissa = 0 || (power < 0 && mantissa * 2 ^ 1075 ≤ 10 ^ power.natAbs))

/-- `bool(v)` -/
def Value.truthy : Value → Bool
  | .null => false
  | .bool b => b
  | .int n => n ≠ 0
  | .float literal => !roundsToZero literal
  | .str points => !points.isEmpty
  | .list items => !items.isEmpty
  | .dict entries => !entries.isEmpty

def Value.str? : Value → Option CodePoints
  | .str points => some points
  | _ => none

end Values

example : loads ⟨2, 0⟩ ['[', '-', '1', ',', '{', '"', 'a', '"', ':', '.', '5', '}', ']'] =
    .error .decode := by rfl

end Engramia.Library.JsonText
