import Mathlib.Data.List.Basic

/-!
The patterns of SQL's `LIKE`. A text whose wildcards are escaped, with a wildcard behind it, is
matched by the texts that begin with it and by no others.
-/
namespace Engramia.Library

variable {α : Type}

/-- The characters that a pattern does not take literally: `any` stands for every text, `one` for
every character, and behind `escape` the next character stands for itself. -/
structure Wildcards (α : Type) where
  any : α
  one : α
  escape : α
  any_ne_one : any ≠ one
  any_ne_escape : any ≠ escape
  one_ne_escape : one ≠ escape

namespace Wildcards
variable [DecidableEq α] (w : Wildcards α)

/-- The first answer that is not negative. -/
def firstMatch : List (Option Bool) → Option Bool
  | [] => some false
  | some false :: answers => firstMatch answers
  | answer :: _ => answer

/-- Whether a text matches a pattern, `none` where the pattern ends in the midst of an escape. -/
def like : List α → List α → Option Bool
  | [], text => some text.isEmpty
  | p :: pattern, text =>
      if p = w.any then firstMatch (text.tails.map (like pattern))
      else if p = w.escape then
        match pattern, text with
        | _, [] => some false
        | [], _ => none
        | q :: pattern, c :: text => if q = c then like pattern text else some false
      else
        match text with
        | [] => some false
        | c :: text => if p = w.one ∨ p = c then like pattern text else some false

/-- `value.replace(c, text)` -/
def replaceChar (c : α) (text value : List α) : List α :=
  value.flatMap fun x => if x = c then text else [x]

/-- The wildcards are escaped one after another, the escape character first. -/
def escapeLike (value : List α) : List α :=
  replaceChar w.one [w.escape, w.one]
    (replaceChar w.any [w.escape, w.any]
      (replaceChar w.escape [w.escape, w.escape] value))

def special (c : α) : Prop := c = w.any ∨ c = w.one ∨ c = w.escape

instance : DecidablePred w.special := fun c =>
  inferInstanceAs (Decidable (c = w.any ∨ c = w.one ∨ c = w.escape))

theorem escapeLike_eq (value : List α) :
    w.escapeLike value = value.flatMap fun c => if w.special c then [w.escape, c] else [c] := by
  rw [escapeLike, replaceChar, replaceChar, replaceChar, List.flatMap_assoc, List.flatMap_assoc]
  apply congrArg (value.flatMap ·)
  funext c
  by_cases hescape : c = w.escape
  · simp [hescape, special, w.any_ne_escape.symm, w.one_ne_escape.symm]
  · by_cases hany : c = w.any
    · simp [hany, special, w.any_ne_escape, w.any_ne_one, w.one_ne_escape.symm]
    · by_cases hone : c = w.one
      · simp [hone, special, w.one_ne_escape, w.any_ne_one.symm]
      · simp [hescape, hany, hone, special]

theorem escapeLike_cons (c : α) (value : List α) :
    w.escapeLike (c :: value) =
      (if w.special c then [w.escape, c] else [c]) ++ w.escapeLike value := by
  rw [escapeLike_eq, escapeLike_eq, List.flatMap_cons]

theorem like_any (text : List α) : w.like [w.any] text = some true := by
  have hall : ∀ text : List α, firstMatch (text.tails.map (w.like [])) = some true := by
    intro text
    induction text with
    | nil => rfl
    | cons c text ih => exact ih
  rw [like.eq_def]
  simp [hall]

theorem like_escape_nil (c : α) (pattern : List α) :
    w.like (w.escape :: c :: pattern) [] = some false := by
  rw [like.eq_def]
  simp [w.any_ne_escape.symm]

theorem like_escape_cons (c d : α) (pattern text : List α) :
    w.like (w.escape :: c :: pattern) (d :: text) =
      if c = d then w.like pattern text else some false := by
  rw [like.eq_def]
  simp [w.any_ne_escape.symm]

section Literal
variable {c : α} (hc : ¬ w.special c)
include hc

theorem like_literal_nil (pattern : List α) : w.like (c :: pattern) [] = some false := by
  simp only [special, not_or] at hc
  rw [like.eq_def]
  simp [hc.1, hc.2.2]

theorem like_literal_cons (d : α) (pattern text : List α) : w.like (c :: pattern) (d :: text) =
    if c = d then w.like pattern text else some false := by
  simp only [special, not_or] at hc
  rw [like.eq_def]
  simp [hc.1, hc.2.1, hc.2.2]

end Literal

theorem like_escapeLike (value pattern text : List α) :
    w.like (w.escapeLike value ++ pattern) text =
      if value.isPrefixOf text then w.like pattern (text.drop value.length) else some false := by
  induction value generalizing text with
  | nil => rfl
  | cons c value ih =>
      rw [escapeLike_cons]
      by_cases hspecial : w.special c
      · rw [if_pos hspecial]
        cases text with
        | nil => exact like_escape_nil w c (w.escapeLike value ++ pattern)
        | cons d text =>
            apply (like_escape_cons w c d (w.escapeLike value ++ pattern) text).trans
            by_cases hcd : c = d
            · simp [hcd, ih]
            · simp [hcd]
      · rw [if_neg hspecial]
        cases text with
        | nil => exact like_literal_nil w hspecial (w.escapeLike value ++ pattern)
        | cons d text =>
            apply (like_literal_cons w hspecial d (w.escapeLike value ++ pattern) text).trans
            by_cases hcd : c = d
            · simp [hcd, ih]
            · simp [hcd]

theorem like_starting (value text : List α) :
    w.like (w.escapeLike value ++ [w.any]) text = some (value.isPrefixOf text) := by
  rw [like_escapeLike]
  by_cases hstarts : value.isPrefixOf text = true
  · rw [if_pos hstarts, like_any, hstarts]
  · rw [if_neg hstarts, Bool.not_eq_true _ |>.mp hstarts]

end Wildcards

end Engramia.Library
