import Engramia.Library.JsonFrames
import Engramia.Library.Whitespace
import Engramia.Storage.Paths
import Mathlib.Data.List.DropRight
import Mathlib.Data.List.Infix

/-!
`extract_json_from_llm`. The whole answer is decoded first, then the block of a code fence, and
without a fence the text from each brace on until one decodes. The first decoding that does not
fail as no JSON decides, be it a list or an error, and so does a fence.
-/
namespace Engramia.Llm
open Engramia.Library Engramia.Library.JsonText Engramia.Storage

/-- `str.strip` -/
def strip (text : Text) : Text :=
  (text.dropWhile isspace).rdropWhile isspace

/-- `JSONDecodeError` is a `ValueError`, as is the error of an integer that is too long. -/
inductive ExtractError where
  | json
  | digits
  | recursion
  | noJson (shown : Text)
deriving DecidableEq

namespace ExtractError

def ofFailure : Failure → ExtractError
  | .decode => .json
  | .digits => .digits
  | .nesting => .recursion

def IsValueError : ExtractError → Prop
  | .recursion => False
  | _ => True

end ExtractError

section Fences

def fence : Text := "```".toList

/-- `.*?\}` before `\s*` and a fence: up to the first brace that a fence follows. -/
def untilFence : Text → Option Text
  | [] => none
  | c :: text =>
      if c = '}' ∧ fence <+: text.dropWhile isspace then some [c]
      else (untilFence text).map (c :: ·)

/-- The group of the pattern, matched at the front of the text. -/
def matchFence (text : Text) : Option Text :=
  if fence <+: text then
    let text := text.drop fence.length
    let text := if "json".toList <+: text then text.drop 4 else text
    match text.dropWhile isspace with
    | [] => none
    | c :: text => if c = '{' then (untilFence text).map (c :: ·) else none
  else none

/-- `re.search` -/
def searchFence : Text → Option Text
  | [] => none
  | c :: text =>
      match matchFence (c :: text) with
      | some block => some block
      | none => searchFence text

end Fences

section Extraction
variable (L : Limits)

/-- The loop over the braces of the text. -/
def scanBraces (shown : Text) : Text → Except ExtractError Value
  | [] => .error (.noJson shown)
  | c :: text =>
      if c = '{' then
        match rawDecode L (c :: text) with
        | .ok (v, _) => .ok v
        | .error .decode => scanBraces shown text
        | .error e => .error (.ofFailure e)
      else scanBraces shown text

def extractJsonFromLlm (text : Text) : Except ExtractError Value :=
  let text := strip text
  match loads L text with
  | .error .decode =>
      match searchFence text with
      | some block => (loads L block).mapError .ofFailure
      | none => scanBraces L (text.take 300) text
  | decoded => decoded.mapError .ofFailure

/-- A dict comes of a text that contains an object, nothing but a dict ever comes, and what is
raised is a `ValueError`. -/
structure Extracts (text : Text) : Prop where
  complete : Contains L text → ∃ v, extractJsonFromLlm L text = .ok v ∧ v.IsDict
  dicts : ∀ v, extractJsonFromLlm L text = .ok v → v.IsDict
  raises : ∀ e, extractJsonFromLlm L text = .error e → e.IsValueError

/-- The decoding at a brace, where none of the braces before it has one. -/
def TriedBrace (text : Text) (decoded : Except Failure Value) : Prop :=
  ∃ before tail, text = before ++ '{' :: tail ∧
    (∀ a b, before = a ++ '{' :: b →
      rawDecode L ('{' :: (b ++ '{' :: tail)) = .error .decode) ∧
    decoded = (rawDecode L ('{' :: tail)).map Prod.fst

/-- The decodings that are tried, each where those before it have failed as no JSON. -/
inductive Tried (text : Text) : Except Failure Value → Prop where
  | whole : Tried text (loads L text)
  | block {block : Text} (hwhole : loads L text = .error .decode)
      (hblock : searchFence text = some block) : Tried text (loads L block)
  | brace {decoded : Except Failure Value} (hwhole : loads L text = .error .decode)
      (hblock : searchFence text = none) (hbrace : TriedBrace L text decoded) :
      Tried text decoded

/-- If the whole text is JSON, it is an object, and nothing that is tried nests too deep. Where
the text contains an object, no integer that is tried is too long, and a fenced block decodes. -/
structure Extractable (text : Text) : Prop where
  object : ∀ v, loads L (strip text) = .ok v → v.IsDict
  shallow : ¬ Tried L (strip text) (.error .nesting)
  short : Contains L text → ¬ Tried L (strip text) (.error .digits)
  fenced : Contains L text → loads L (strip text) = .error .decode →
    ∀ block, searchFence (strip text) = some block → ∃ v, loads L block = .ok v

end Extraction

section Strip
variable {text part : Text} {p : Char → Bool}

theorem infix_dropWhile {c : Char} (hc : p c = false) (h : c :: part <:+: text) :
    c :: part <:+: text.dropWhile p := by
  obtain ⟨before, after, htext⟩ := h
  rw [← htext]
  clear htext
  induction before with
  | nil =>
      rw [List.nil_append, List.cons_append, List.dropWhile_cons_of_neg (by simp [hc])]
      exact ⟨[], after, rfl⟩
  | cons d before ih =>
      by_cases hd : p d
      · simpa [hd] using ih
      · simp only [List.cons_append, List.dropWhile_cons_of_neg hd]
        exact ⟨d :: before, after, by simp⟩

theorem infix_rdropWhile {c : Char} (hc : p c = false) (h : part ++ [c] <:+: text) :
    part ++ [c] <:+: text.rdropWhile p := by
  have hreverse : c :: part.reverse <:+: text.reverse := by
    simpa using List.reverse_infix.mpr h
  have hdrop := List.reverse_infix.mpr (infix_dropWhile hc hreverse)
  simpa [List.rdropWhile] using hdrop

theorem strip_infix : strip text <:+: text :=
  ((List.rdropWhile_prefix _ _).isInfix).trans (List.dropWhile_suffix _).isInfix

theorem contains_strip {L : Limits} : Contains L (strip text) ↔ Contains L text := by
  constructor
  · intro h
    obtain ⟨object, v, hobject, hv⟩ := h
    exact ⟨object, v, hobject.trans strip_infix, hv⟩
  · intro h
    obtain ⟨before, tail, v, rest, htext, hraw⟩ := contains_iff.mp h
    obtain ⟨hv, used, htail, hloads⟩ := loads_object hraw
    have hinfix : '{' :: (used ++ ['}']) <:+: text := ⟨before, rest, by simp [htext, htail]⟩
    have hleft := infix_dropWhile (p := isspace) rfl hinfix
    rw [← List.cons_append] at hleft
    exact ⟨_, v, infix_rdropWhile rfl hleft, hloads, hv⟩

end Strip

section Fenced
variable {L : Limits} {text block : Text} {v : Value}

theorem matchFence_brace (h : matchFence text = some block) : ∃ tail, block = '{' :: tail := by
  unfold matchFence at h
  split at h
  · dsimp only at h
    split at h
    · cases h
    · split at h
      case isTrue hc =>
          obtain ⟨tail, _, hblock⟩ := Option.map_eq_some_iff.mp h
          exact ⟨tail, by rw [← hblock, hc]⟩
      case isFalse => cases h
  · cases h

theorem searchFence_brace (h : searchFence text = some block) : ∃ tail, block = '{' :: tail := by
  induction text with
  | nil => cases h
  | cons c text ih =>
      rw [searchFence] at h
      cases hmatch : matchFence (c :: text) with
      | some found =>
          rw [hmatch] at h
          cases h
          exact matchFence_brace hmatch
      | none =>
          rw [hmatch] at h
          exact ih h

theorem isDict_of_block (hblock : searchFence text = some block) (h : loads L block = .ok v) :
    v.IsDict := by
  obtain ⟨tail, rfl⟩ := searchFence_brace hblock
  obtain ⟨rest, hraw, _⟩ := loads_eq_ok h
  exact (loads_object hraw).1

end Fenced

section Braces
variable {L : Limits} {text shown : Text} {decoded : Except Failure Value}

theorem triedBrace_cons {c : Char} (hc : c ≠ '{') :
    TriedBrace L (c :: text) decoded ↔ TriedBrace L text decoded := by
  constructor
  · intro h
    obtain ⟨before, tail, htext, hbefore, hdecoded⟩ := h
    cases before with
    | nil =>
        cases htext
        exact absurd rfl hc
    | cons d before =>
        cases htext
        exact ⟨before, tail, rfl, fun a b hab => hbefore (c :: a) b (by rw [hab]; rfl), hdecoded⟩
  · intro h
    obtain ⟨before, tail, htext, hbefore, hdecoded⟩ := h
    refine ⟨c :: before, tail, by rw [htext]; rfl, ?_, hdecoded⟩
    intro a b hab
    cases a with
    | nil =>
        cases hab
        exact absurd rfl hc
    | cons d a =>
        cases hab
        exact hbefore a b rfl

/-- Of a text that begins with a brace the decoding there is tried, and the others only when it
fails as no JSON. -/
theorem triedBrace_brace : TriedBrace L ('{' :: text) decoded ↔
    decoded = (rawDecode L ('{' :: text)).map Prod.fst ∨
      rawDecode L ('{' :: text) = .error .decode ∧ TriedBrace L text decoded := by
  constructor
  · intro h
    obtain ⟨before, tail, htext, hbefore, hdecoded⟩ := h
    cases before with
    | nil =>
        cases htext
        exact .inl hdecoded
    | cons d before =>
        cases htext
        refine .inr ⟨hbefore [] before rfl, before, tail, rfl, ?_, hdecoded⟩
        intro a b hab
        exact hbefore ('{' :: a) b (by rw [hab]; rfl)
  · intro h
    cases h with
    | inl hdecoded =>
        refine ⟨[], text, rfl, ?_, hdecoded⟩
        intro a b hab
        simp at hab
    | inr h =>
        obtain ⟨hfirst, before, tail, htext, hbefore, hdecoded⟩ := h
        refine ⟨'{' :: before, tail, by rw [htext]; rfl, ?_, hdecoded⟩
        intro a b hab
        cases a with
        | nil =>
            cases hab
            rw [← htext]
            exact hfirst
        | cons d a =>
            cases hab
            exact hbefore a b rfl

theorem scanBraces_tried (hdecoded : decoded ≠ .error .decode) (h : TriedBrace L text decoded) :
    scanBraces L shown text = decoded.mapError .ofFailure := by
  induction text with
  | nil =>
      obtain ⟨before, tail, htext, _⟩ := h
      simp at htext
  | cons c text ih =>
      rw [scanBraces]
      by_cases hc : c = '{'
      · subst hc
        rw [if_pos rfl]
        cases triedBrace_brace.mp h with
        | inl hfirst =>
            cases hraw : rawDecode L ('{' :: text) with
            | ok x =>
                rw [hfirst, hraw]
                rfl
            | error e =>
                rw [hraw] at hfirst
                cases e with
                | decode => exact absurd hfirst hdecoded
                | nesting | digits => rw [hfirst]; rfl
        | inr hlater =>
            rw [hlater.1]
            exact ih hlater.2
      · rw [if_neg hc]
        exact ih ((triedBrace_cons hc).mp h)

variable (shown) in
theorem scanBraces_untried
    (h : ∀ decoded, TriedBrace L text decoded → decoded = .error .decode) :
    scanBraces L shown text = .error (.noJson shown) ∧
      ∀ before tail, text = before ++ '{' :: tail →
        rawDecode L ('{' :: tail) = .error .decode := by
  induction text with
  | nil => exact ⟨rfl, by simp⟩
  | cons c text ih =>
      rw [scanBraces]
      by_cases hc : c = '{'
      · subst hc
        have hmap := h _ (triedBrace_brace.mpr (.inl rfl))
        have hfirst : rawDecode L ('{' :: text) = .error .decode := by
          cases hraw : rawDecode L ('{' :: text) with
          | ok x =>
              rw [hraw] at hmap
              cases hmap
          | error e =>
              rw [hraw] at hmap
              cases hmap
              rfl
        obtain ⟨hscan, hbraces⟩ := ih fun decoded htried =>
          h decoded (triedBrace_brace.mpr (.inr ⟨hfirst, htried⟩))
        rw [if_pos rfl, hfirst]
        refine ⟨hscan, ?_⟩
        intro before tail htext
        cases before with
        | nil =>
            cases htext
            exact hfirst
        | cons d before =>
            cases htext
            exact hbraces before tail rfl
      · obtain ⟨hscan, hbraces⟩ := ih fun decoded htried =>
          h decoded ((triedBrace_cons hc).mpr htried)
        rw [if_neg hc]
        refine ⟨hscan, ?_⟩
        intro before tail htext
        cases before with
        | nil =>
            cases htext
            exact absurd rfl hc
        | cons d before =>
            cases htext
            exact hbraces before tail rfl

theorem isDict_of_triedBrace {v : Value} (h : TriedBrace L text (.ok v)) : v.IsDict := by
  obtain ⟨before, tail, _, _, hdecoded⟩ := h
  cases hraw : rawDecode L ('{' :: tail) with
  | error e =>
      rw [hraw] at hdecoded
      cases hdecoded
  | ok x =>
      rw [hraw] at hdecoded
      cases hdecoded
      exact (loads_object hraw).1

end Braces

section Conditions
variable {L : Limits} {text : Text}

theorem extracts_of_ok {v : Value} (h : extractJsonFromLlm L text = .ok v) :
    Extracts L text ↔ v.IsDict := by
  constructor
  · intro hextracts
    exact hextracts.dicts v h
  · intro hv
    refine ⟨fun _ => ⟨v, h, hv⟩, ?_, ?_⟩
    · intro w hw
      rw [h] at hw
      cases hw
      exact hv
    · intro e he
      rw [h] at he
      cases he

theorem extracts_of_error {e : ExtractError} (h : extractJsonFromLlm L text = .error e) :
    Extracts L text ↔ e.IsValueError ∧ ¬ Contains L text := by
  constructor
  · intro hextracts
    refine ⟨hextracts.raises e h, ?_⟩
    intro hcontains
    obtain ⟨v, hv, _⟩ := hextracts.complete hcontains
    rw [h] at hv
    cases hv
  · intro hclean
    refine ⟨fun hcontains => absurd hcontains hclean.2, ?_, ?_⟩
    · intro v hv
      rw [h] at hv
      cases hv
    · intro f hf
      rw [h] at hf
      cases hf
      exact hclean.1

theorem extract_of_block {block : Text} (hwhole : loads L (strip text) = .error .decode)
    (hblock : searchFence (strip text) = some block) :
    extractJsonFromLlm L text = (loads L block).mapError .ofFailure := by
  simp only [extractJsonFromLlm, hwhole, hblock]

theorem extract_of_tried {decoded : Except Failure Value} (h : Tried L (strip text) decoded)
    (hdecoded : decoded ≠ .error .decode) :
    extractJsonFromLlm L text = decoded.mapError .ofFailure := by
  cases h with
  | whole =>
      cases hwhole : loads L (strip text) with
      | ok v => simp only [extractJsonFromLlm, hwhole]
      | error e =>
          cases e with
          | decode => exact absurd hwhole hdecoded
          | nesting | digits => simp only [extractJsonFromLlm, hwhole]
  | block hwhole hblock => exact extract_of_block hwhole hblock
  | brace hwhole hblock hbrace =>
      simp only [extractJsonFromLlm, hwhole, hblock]
      exact scanBraces_tried hdecoded hbrace

theorem extract_of_untried
    (h : ∀ decoded, Tried L (strip text) decoded → decoded = .error .decode) :
    (∃ e, extractJsonFromLlm L text = .error e ∧ e.IsValueError) ∧
      (searchFence (strip text) = none → ¬ Contains L text) := by
  have hwhole := h _ .whole
  cases hblock : searchFence (strip text) with
  | some block =>
      have hdecoded := h _ (.block hwhole hblock)
      refine ⟨⟨.json, ?_, trivial⟩, fun hnone => by cases hnone⟩
      rw [extract_of_block hwhole hblock, hdecoded]
      rfl
  | none =>
      have hbraces := scanBraces_untried ((strip text).take 300)
        fun decoded hbrace => h decoded (.brace hwhole hblock hbrace)
      refine ⟨⟨.noJson ((strip text).take 300), ?_, trivial⟩, fun _ hcontains => ?_⟩
      · simp only [extractJsonFromLlm, hwhole, hblock]
        exact hbraces.1
      · obtain ⟨before, tail, v, rest, htext, hraw⟩ :=
          contains_iff.mp (contains_strip.mpr hcontains)
        rw [hbraces.2 before tail htext] at hraw
        cases hraw

theorem whole_or_isDict {decoded : Except Failure Value} {v : Value}
    (h : Tried L text decoded) (hv : decoded = .ok v) :
    loads L text = .ok v ∨ loads L text = .error .decode ∧ v.IsDict := by
  cases h with
  | whole => exact .inl hv
  | block hwhole hblock => exact .inr ⟨hwhole, isDict_of_block hblock hv⟩
  | brace hwhole hblock hbrace => exact .inr ⟨hwhole, isDict_of_triedBrace (hv ▸ hbrace)⟩

theorem extractable_of_ok {v : Value} (h : extractJsonFromLlm L text = .ok v) :
    Extractable L text ↔ ∀ w, loads L (strip text) = .ok w → w.IsDict := by
  constructor
  · intro hextractable
    exact hextractable.object
  · intro hobject
    have hnot : ∀ e, e ≠ .decode → ¬ Tried L (strip text) (.error e) := by
      intro e he htried
      have hextract := extract_of_tried htried (by simpa using he)
      rw [h] at hextract
      cases hextract
    refine ⟨hobject, hnot .nesting (by decide), fun _ => hnot .digits (by decide), ?_⟩
    intro _ hwhole block hblock
    rw [extract_of_block hwhole hblock] at h
    cases hdecoded : loads L block with
    | ok w => exact ⟨w, rfl⟩
    | error e =>
        rw [hdecoded] at h
        cases h

theorem extractable_of_error {e : ExtractError} (h : extractJsonFromLlm L text = .error e)
    (hnesting : ¬ Tried L (strip text) (.error .nesting))
    (hcontains : ¬ Contains L text) : Extractable L text where
  object v hv := by
    have htried : Tried L (strip text) (.ok v) := hv ▸ Tried.whole
    rw [extract_of_tried htried (by simp)] at h
    cases h
  shallow := hnesting
  short h := absurd h hcontains
  fenced h := absurd h hcontains

/-- The extraction does what it says exactly for the texts that are extractable. -/
theorem extracts_iff (L : Limits) (text : Text) : Extracts L text ↔ Extractable L text := by
  by_cases hall : ∀ decoded, Tried L (strip text) decoded → decoded = .error .decode
  · obtain ⟨⟨e, he, hvalue⟩, hnone⟩ := extract_of_untried hall
    rw [extracts_of_error he]
    constructor
    · intro hclean
      exact extractable_of_error he (fun htried => by cases hall _ htried) hclean.2
    · intro hextractable
      refine ⟨hvalue, fun hcontains => ?_⟩
      cases hblock : searchFence (strip text) with
      | none => exact hnone hblock hcontains
      | some block =>
          have hwhole := hall _ .whole
          obtain ⟨v, hv⟩ := hextractable.fenced hcontains hwhole block hblock
          have hfailed := hall _ (.block hwhole hblock)
          rw [hv] at hfailed
          cases hfailed
  · obtain ⟨decoded, hnot⟩ := not_forall.mp hall
    obtain ⟨htried, hdecoded⟩ := Classical.not_imp.mp hnot
    have hextract := extract_of_tried htried hdecoded
    cases decoded with
    | ok v =>
        rw [extracts_of_ok hextract, extractable_of_ok hextract]
        cases whole_or_isDict htried rfl with
        | inl hwhole => simp [hwhole]
        | inr hdict => simp [hdict.1, hdict.2]
    | error f =>
        cases f with
        | decode => exact absurd rfl hdecoded
        | nesting =>
            rw [extracts_of_error hextract]
            constructor
            · intro hclean
              exact absurd hclean.1 id
            · intro hextractable
              exact absurd htried hextractable.shallow
        | digits =>
            rw [extracts_of_error hextract]
            constructor
            · intro hclean
              refine extractable_of_error hextract (fun hnesting => ?_) hclean.2
              have hother := extract_of_tried hnesting (by simp)
              rw [hextract] at hother
              cases hother
            · intro hextractable
              exact ⟨trivial, fun hcontains => hextractable.short hcontains htried⟩

/-- The limits of the interpreter. -/
def defaultLimits : Limits where
  nesting := 1000
  digits := 4300

/-- An answer that is a list of numbers comes back as the list. -/
theorem list_extracted :
    extractJsonFromLlm defaultLimits ['[', '1', ']'] = .ok (.list [.int 1]) ∧
      ¬ Extracts defaultLimits ['[', '1', ']'] := by
  have hlist : extractJsonFromLlm defaultLimits ['[', '1', ']'] = .ok (.list [.int 1]) := by rfl
  refine ⟨hlist, ?_⟩
  intro hextracts
  exact hextracts.dicts _ hlist

end Conditions

end Engramia.Llm
