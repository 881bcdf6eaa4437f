import Engramia.Library.FileTree

/-!
How the JSON store turns scopes and keys into paths. A key is the list of its
characters and a path the list of its names, relative to the storage root.

`suffix` and `withSuffix` are those of `pathlib`: the last dot of a name opens
its suffix unless it is the first or the last character.
-/
namespace Engramia.Storage
open Engramia.Library

abbrev Text := List Char
abbrev Path := List Text

theorem text_lawfulBEq : LawfulBEq Text :=
  List.instLawfulBEq

def jsonSuffix : Text := ['.', 'j', 's', 'o', 'n']
def tmpSuffix : Text := ['.', 't', 'm', 'p']
def bakSuffix : Text := ['.', 'b', 'a', 'k']

/-- What follows the last dot, or the whole name when it has none. -/
def afterLastDot (name : Text) : Text :=
  (name.reverse.takeWhile (· ≠ '.')).reverse

def suffix (name : Text) : Text :=
  let tail := afterLastDot name
  if 0 < tail.length ∧ tail.length + 1 < name.length then '.' :: tail else []

/-- The name without its suffix. -/
def stem (name : Text) : Text :=
  name.take (name.length - (suffix name).length)

def withSuffix (path : Path) (s : Text) : Path :=
  path.dropLast ++ [stem (path.getLastD []) ++ s]

section Names

theorem afterLastDot_append (x e : Text) (he : '.' ∉ e) : afterLastDot (x ++ '.' :: e) = e := by
  have hall : ∀ c ∈ e.reverse, decide (c ≠ '.') = true := by
    intro c hc
    rw [decide_eq_true_iff]
    intro hdot
    exact he (hdot ▸ List.mem_reverse.mp hc)
  rw [afterLastDot, List.reverse_append, List.reverse_cons, List.append_assoc,
    List.takeWhile_append_of_pos hall]
  simp

theorem suffix_append {x e : Text} (hx : x ≠ []) (he : e ≠ []) (hdot : '.' ∉ e) :
    suffix (x ++ '.' :: e) = '.' :: e := by
  have hx' := List.length_pos_iff.mpr hx
  have he' := List.length_pos_iff.mpr he
  rw [suffix, afterLastDot_append x e hdot, if_pos]
  simp only [List.length_append, List.length_cons]
  omega

theorem stem_append {x e : Text} (hx : x ≠ []) (he : e ≠ []) (hdot : '.' ∉ e) :
    stem (x ++ '.' :: e) = x := by
  rw [stem, suffix_append hx he hdot, List.length_append, Nat.add_sub_cancel,
    List.take_left]

theorem stem_ne_nil {name : Text} (h : name ≠ []) : stem name ≠ [] := by
  have hpos := List.length_pos_iff.mpr h
  have hlen : (suffix name).length < name.length := by
    rw [suffix]
    by_cases hc : 0 < (afterLastDot name).length ∧ (afterLastDot name).length + 1 < name.length
    · rw [if_pos hc]
      exact hc.2
    · rw [if_neg hc]
      exact hpos
  rw [← List.length_pos_iff, stem, List.length_take]
  omega

theorem stem_of_suffix_nil {name : Text} (h : suffix name = []) : stem name = name := by
  rw [stem, h]
  exact List.take_length

theorem suffix_length_le (name : Text) : (suffix name).length ≤ name.length := by
  rw [suffix]
  by_cases hc : 0 < (afterLastDot name).length ∧ (afterLastDot name).length + 1 < name.length
  · rw [if_pos hc]
    exact Nat.le_of_lt hc.2
  · rw [if_neg hc]
    exact Nat.zero_le _

theorem suffix_of_stem_eq {name : Text} (h : stem name = name) : suffix name = [] := by
  have hlen := congrArg List.length h
  have hle := suffix_length_le name
  rw [stem, List.length_take] at hlen
  rw [← List.length_eq_zero_iff]
  omega

theorem withSuffix_append_singleton (dir : Path) (name ext : Text) :
    withSuffix (dir ++ [name]) ext = dir ++ [stem name ++ ext] := by
  rw [withSuffix, List.dropLast_concat]
  simp

theorem withSuffix_json {x : Text} (hx : x ≠ []) (dir : Path) (ext : Text) :
    withSuffix (dir ++ [x ++ jsonSuffix]) ext = dir ++ [x ++ ext] := by
  rw [withSuffix_append_singleton, jsonSuffix, stem_append hx (List.cons_ne_nil _ _) (by decide)]

end Names

structure Scope where
  tenantId : Text
  projectId : Text
deriving DecidableEq

def defaultName : Text := ['d', 'e', 'f', 'a', 'u', 'l', 't']

def defaultScope : Scope := ⟨defaultName, defaultName⟩

section Roots
variable (isalnum : Char → Bool)

/-- `_sanitize_segment`; `isalnum` is the character class of `str.isalnum`. -/
def sanitizeSegment (segment : Text) : Text :=
  let clean := segment.map fun c => if isalnum c || c = '-' || c = '_' then c else '_'
  if clean = [] then defaultName else clean

/-- `_effective_root` -/
def effectiveRoot (s : Scope) : Path :=
  if s = defaultScope then []
  else [sanitizeSegment isalnum s.tenantId, sanitizeSegment isalnum s.projectId]

end Roots

/-- `text.replace("\\", "/")` -/
def slashes (text : Text) : Text :=
  text.map fun c => if c = '\\' then '/' else c

/-- The names a key stands for: empty segments and segments of dots are dropped. -/
def keyParts (key : Text) : Path :=
  ((slashes key).splitOn '/').filter fun p => p ≠ [] && !p.all (· = '.')

/-- `_key_to_path`, `none` where it raises. The parts hold no separator and no
`..`, so the path stays inside the root and the check that it does always passes. -/
def keyToPath (root : Path) (key : Text) : Option Path :=
  if keyParts key = [] then none
  else some (withSuffix (root ++ keyParts key) jsonSuffix)

/-- The key `list_keys` reports for a path relative to the root. -/
def pathToKey (relative : Path) : Text :=
  slashes (['/'].intercalate (withSuffix relative []))

/-- The names `list_keys` looks at: those `*.json` matches, less the ones with a
leading underscore. -/
def listed (relative : Path) : Bool :=
  let name := relative.getLastD []
  jsonSuffix.isSuffixOf name && name.head? ≠ some '_'

theorem split_last {q : Path} (hq : q ≠ []) : q = q.dropLast ++ [q.getLastD []] := by
  rw [List.getLastD_eq_getLast?, List.getLast?_eq_some_getLast hq]
  exact (List.dropLast_append_getLast hq).symm

theorem last_mem {q : Path} (hq : q ≠ []) : q.getLastD [] ∈ q := by
  rw [List.getLastD_eq_getLast?, List.getLast?_eq_some_getLast hq]
  exact List.getLast_mem hq

theorem keyToPath_eq_some {root path : Path} {key : Text} (h : keyToPath root key = some path) :
    ∃ x, x ≠ [] ∧ path = root ++ (keyParts key).dropLast ++ [x ++ jsonSuffix] ∧
      x = stem ((keyParts key).getLastD []) := by
  rw [keyToPath] at h
  by_cases hparts : keyParts key = []
  · rw [if_pos hparts] at h
    cases h
  · rw [if_neg hparts] at h
    cases h
    have hlast : (keyParts key).getLastD [] ≠ [] := by
      have hkept := (List.mem_filter.mp (last_mem hparts)).2
      simp only [Bool.and_eq_true, decide_eq_true_eq] at hkept
      exact hkept.1
    refine ⟨_, stem_ne_nil hlast, ?_, rfl⟩
    conv => lhs; rw [split_last hparts]
    rw [← List.append_assoc, withSuffix_append_singleton]

end Engramia.Storage
