import Mathlib.Data.List.DropRight
import Mathlib.Data.List.Infix

/-!
White space at the ends of a text: what Python and Unicode count as white space, and a text
without it.
-/
namespace Engramia.Library

/-- `str.isspace` on one character. -/
def isspace (c : Char) : Bool :=
  let n := c.toNat
  (9 ≤ n && n ≤ 13) || (28 ≤ n && n ≤ 32) || n == 0x85 || n == 0xa0 || n == 0x1680 ||
    (0x2000 ≤ n && n ≤ 0x200a) || n == 0x2028 || n == 0x2029 || n == 0x202f ||
    n == 0x205f || n == 0x3000

/-- `White_Space` of Unicode, which the four separators of ASCII do not have. -/
def isWhiteSpace (c : Char) : Bool :=
  isspace c && !(28 ≤ c.toNat && c.toNat ≤ 31)

def stripChars (p : Char → Bool) (cs : List Char) : List Char :=
  (cs.dropWhile p).rdropWhile p

variable {p : Char → Bool} {cs : List Char}

theorem dropWhile_stripChars : (stripChars p cs).dropWhile p = stripChars p cs := by
  rw [List.dropWhile_eq_self_iff]
  intro hlength
  have hprefix : stripChars p cs <+: cs.dropWhile p :=
    List.rdropWhile_prefix p _
  have hdrop : 0 < (cs.dropWhile p).length := hlength.trans_le hprefix.length_le
  have hne : cs.dropWhile p ≠ [] := List.ne_nil_of_length_pos hdrop
  have hhead : (stripChars p cs)[0] = (cs.dropWhile p).head hne := by
    rw [List.head_eq_getElem]
    exact hprefix.getElem hlength
  rw [hhead]
  exact Bool.not_eq_true _ |>.mpr (List.head_dropWhile_not p hne)

theorem stripChars_stripChars : stripChars p (stripChars p cs) = stripChars p cs := by
  rw [stripChars, dropWhile_stripChars]
  exact List.rdropWhile_idempotent p _

def stripText (s : String) : String :=
  String.ofList (stripChars isWhiteSpace s.toList)

theorem stripText_stripText (s : String) : stripText (stripText s) = stripText s := by
  rw [stripText, stripText, String.toList_ofList, stripChars_stripChars]

end Engramia.Library
