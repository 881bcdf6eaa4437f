import Engramia.Governance.RegexRules
import Engramia.Library.Captures

/-!
The patterns of the log redactor. None has a condition on what stands around a match, none takes a
bracket, and what is put in the place of a match, with the start of a header that stays, is too
light for a match under a weight that is chosen for each pattern. So one pass leaves no match of
any pattern, whatever the order of the passes.
-/
namespace Engramia.Telemetry
open Engramia.Library Engramia.Library.Regex Engramia.Storage
open Engramia.Governance (TextClasses literal base64Url oneOf ne_bracket literal_takes
  isAlphanum_ascii)

/-- An entry of `_PATTERNS`. What a group at its start takes is kept. -/
structure LogPattern where
  group : Regex Char
  secret : Regex Char
  placeholder : Text

def LogPattern.pattern (p : LogPattern) : Regex Char :=
  seq p.group p.secret

/-- `pattern.sub(replacement, text)` -/
def LogPattern.replace (p : LogPattern) (text : Text) : Text :=
  subKeeping p.group p.secret p.placeholder text

section Definitions
variable (U : TextClasses)

def anthropicKey : LogPattern where
  group := .empty
  secret := concat [literal "sk-ant-".toList, many base64Url 20]
  placeholder := "[REDACTED:anthropic_key]".toList

def openaiKey : LogPattern where
  group := .empty
  secret := concat [literal "sk-".toList, many base64Url 20]
  placeholder := "[REDACTED:openai_key]".toList

def googleAiKey : LogPattern where
  group := .empty
  secret := concat [literal "AIza".toList, rep (char base64Url) 35 0]
  placeholder := "[REDACTED:google_ai_key]".toList

def engramiaKey : LogPattern where
  group := .empty
  secret := concat [literal "engramia_sk_".toList, many base64Url 20]
  placeholder := "[REDACTED:engramia_key]".toList

/-- `[A-Za-z0-9_\-\.=]` -/
def bearerChar (ch : Char) : Bool := ch.isAlphanum || oneOf ['_', '-', '.', '='] ch

def bearerToken : LogPattern where
  group := concat
    [literal "Authorization:".toList, many U.space 0, literal "Bearer".toList, many U.space 1]
  secret := many bearerChar 16
  placeholder := "[REDACTED:bearer]".toList

def jwt : LogPattern where
  group := .empty
  secret := concat
    [literal "eyJ".toList, many base64Url 1, char (· == '.'), many base64Url 1, char (· == '.'),
      many base64Url 1]
  placeholder := "[REDACTED:jwt]".toList

/-- `_PATTERNS` -/
def patterns : List LogPattern :=
  [anthropicKey, openaiKey, googleAiKey, engramiaKey, bearerToken U, jwt]

def redact (text : Text) : Text :=
  (patterns U).foldl (fun text p => p.replace text) text

/-- What stands between the brackets of the placeholders. -/
def labels : List Text :=
  ["REDACTED:anthropic_key".toList, "REDACTED:openai_key".toList, "REDACTED:google_ai_key".toList,
    "REDACTED:engramia_key".toList, "REDACTED:bearer".toList, "REDACTED:jwt".toList]

/-- One for each character of some kind. -/
def counting (p : Char → Bool) (ch : Char) : ℕ :=
  if p ch then 1 else 0

/-- What every match of a pattern is, beside what is inserted and what the pattern keeps. -/
structure Guarded (p : LogPattern) (w : Char → ℕ) (k : ℕ) : Prop where
  takes : p.pattern.TakesOnly fun ch => ch ≠ '[' ∧ ch ≠ ']'
  free : p.pattern.LookFree
  heavy : p.pattern.WeighsAtLeast w k
  light : p.group.WeighsBelow w k
  lighter : ∀ letters ∈ labels, weight w letters < k

end Definitions

section Weights
variable {w : Char → ℕ} {k : ℕ}

theorem literal_heavy (w : Char → ℕ) (text : Text) :
    (literal text).WeighsAtLeast w (weight w text) := by
  induction text with
  | nil => exact WeighsAtLeast.empty w
  | cons x text ih =>
      have hfirst : (char (· == x)).WeighsAtLeast w (w x) :=
        .char fun ch hch => le_of_eq (congrArg w (beq_iff_eq.mp hch)).symm
      exact (hfirst.seq ih).mono (le_of_eq (weight_cons w x text))

theorem literal_light (w : Char → ℕ) (text : Text) :
    (literal text).WeighsBelow w (weight w text + 1) := by
  induction text with
  | nil => exact WeighsBelow.empty w
  | cons x text ih =>
      have hfirst : (char (· == x)).WeighsBelow w (w x + 1) :=
        .char fun ch hch => le_of_eq (congrArg w (beq_iff_eq.mp hch))
      have hall := hfirst.seq ih
      rw [← weight_cons] at hall
      exact hall

theorem literal_free (text : Text) : (literal text).LookFree := by
  induction text with
  | nil => trivial
  | cons x text ih => exact ⟨trivial, ih⟩

theorem rep_free {r : Regex Char} (h : r.LookFree) (least : ℕ) : (r.rep least 0).LookFree := by
  induction least with
  | zero => trivial
  | succ least ih => exact ⟨h, ih⟩

theorem guarded_plain {start : Text} {rest : Regex Char} {placeholder : Text} {p : Char → Bool}
    (hopening : oneOf start '[' = false) (hclosing : oneOf start ']' = false)
    (htakes : rest.TakesOnly fun ch => ch ≠ '[' ∧ ch ≠ ']') (hfree : rest.LookFree)
    (hrest : rest.WeighsAtLeast (counting p) k)
    (hheavy : 1 ≤ weight (counting p) start + k)
    (hlighter : ∀ letters ∈ labels, weight (counting p) letters = 0) :
    Guarded ⟨.empty, seq (literal start) rest, placeholder⟩ (counting p) 1 where
  takes := ⟨trivial, literal_takes hopening hclosing, htakes⟩
  free := ⟨trivial, literal_free start, hfree⟩
  heavy := by
    have hall := (WeighsAtLeast.empty (counting p)).seq
      ((literal_heavy (counting p) start).seq hrest)
    exact hall.mono (by omega)
  light := WeighsBelow.empty _
  lighter := by
    intro letters hletters
    rw [hlighter letters hletters]
    exact Nat.one_pos

end Weights

section Laws
variable (U : TextClasses)

theorem base64Url_takes : ∀ ch, base64Url ch = true → ch ≠ '[' ∧ ch ≠ ']' :=
  ne_bracket (by decide) (by decide)

theorem anthropicKey_guarded : Guarded anthropicKey (counting (· == '-')) 1 :=
  guarded_plain (by decide) (by decide) ⟨base64Url_takes, trivial⟩ ⟨trivial, trivial⟩
    (.zero _ _) (by decide) (by decide)

theorem openaiKey_guarded : Guarded openaiKey (counting (· == '-')) 1 :=
  guarded_plain (by decide) (by decide) ⟨base64Url_takes, trivial⟩ ⟨trivial, trivial⟩
    (.zero _ _) (by decide) (by decide)

theorem googleAiKey_guarded : Guarded googleAiKey (counting (· == 'z')) 1 :=
  guarded_plain (by decide) (by decide)
    ⟨TakesOnly.rep (a := char base64Url) base64Url_takes 35 0, trivial⟩
    ⟨rep_free (r := char base64Url) trivial 35, trivial⟩
    (.zero _ _) (by decide) (by decide)

theorem engramiaKey_guarded : Guarded engramiaKey (counting (· == 's')) 1 :=
  guarded_plain (by decide) (by decide) ⟨base64Url_takes, trivial⟩ ⟨trivial, trivial⟩
    (.zero _ _) (by decide) (by decide)

theorem jwt_guarded : Guarded jwt (counting (· == '.')) 1 := by
  have hdot : (char (· == '.')).TakesOnly fun ch : Char => ch ≠ '[' ∧ ch ≠ ']' :=
    ne_bracket (by decide) (by decide)
  have hparts : (concat [many base64Url 1, char (· == '.'), many base64Url 1, char (· == '.'),
      many base64Url 1]).WeighsAtLeast (counting (· == '.')) 1 := by
    have hone : (char (· == '.')).WeighsAtLeast (counting (· == '.')) 1 := by
      apply WeighsAtLeast.char
      intro ch hch
      simp [counting, beq_iff_eq.mp hch]
    exact ((WeighsAtLeast.zero _ _).seq (hone.seq (.zero _ _))).mono (by decide)
  exact guarded_plain (by decide) (by decide)
    ⟨base64Url_takes, hdot, base64Url_takes, hdot, base64Url_takes, trivial⟩
    ⟨trivial, trivial, trivial, trivial, trivial, trivial⟩ hparts (by decide)
    (by decide)

theorem not_bearerChar_of_space {ch : Char} (h : U.space ch = true) : bearerChar ch = false := by
  cases hch : bearerChar ch with
  | false => rfl
  | true =>
      have hascii : ch.toNat < 128 := by
        cases Bool.or_eq_true_iff.mp hch with
        | inl halphanum => exact isAlphanum_ascii halphanum
        | inr hmark =>
            obtain ⟨x, hx, heq⟩ := List.any_eq_true.mp hmark
            rw [← beq_iff_eq.mp heq]
            have hall : ['_', '-', '.', '='].all (fun x => Nat.blt x.toNat 128) = true := rfl
            exact Nat.blt_eq.mp (List.all_eq_true.mp hall x hx)
      rw [U.ascii_space ch hascii] at h
      have hall : (List.range 33).all (fun n => !bearerChar (Char.ofNat n)) = true := by decide
      have hsmall : ch.toNat < 33 := by
        simp only [Bool.or_eq_true, decide_eq_true_eq] at h
        omega
      have hnone := List.all_eq_true.mp hall ch.toNat (List.mem_range.mpr hsmall)
      rw [Char.ofNat_toNat, hch] at hnone
      cases hnone

theorem bearerToken_guarded : Guarded (bearerToken U) (counting bearerChar) 35 where
  takes := by
    have hspace : ∀ ch, U.space ch = true → ch ≠ '[' ∧ ch ≠ ']' :=
      ne_bracket (U.ascii_space '[' (by decide)) (U.ascii_space ']' (by decide))
    exact ⟨⟨literal_takes (by decide) (by decide), hspace, literal_takes (by decide) (by decide),
      hspace, trivial⟩, ne_bracket (by decide) (by decide)⟩
  free := ⟨⟨literal_free _, trivial, literal_free _, trivial, trivial⟩, trivial⟩
  heavy := by
    have htoken : (many bearerChar 16).WeighsAtLeast (counting bearerChar) (16 * 1) :=
      .many (fun ch hch => by simp [counting, hch]) 16
    have hgroup := (literal_heavy (counting bearerChar) "Authorization:".toList).seq
      ((WeighsAtLeast.zero _ (many U.space 0)).seq
        ((literal_heavy (counting bearerChar) "Bearer".toList).seq
          (WeighsAtLeast.zero _ (concat [many U.space 1]))))
    exact (hgroup.seq htoken).mono (by decide)
  light := by
    have hspace : ∀ ch, U.space ch = true → counting bearerChar ch = 0 := by
      intro ch hch
      simp [counting, not_bearerChar_of_space U hch]
    have hgroup := (literal_light (counting bearerChar) "Authorization:".toList).seq
      (WeighsBelow.seq (k := 0) (.many hspace 0)
        ((literal_light (counting bearerChar) "Bearer".toList).seq
          (WeighsBelow.seq (k := 0) (l := 0) (.many hspace 1) (.empty _))))
    exact hgroup.mono (by decide)
  lighter := by decide

theorem patterns_guarded : ∀ p ∈ patterns U, ∃ w k, Guarded p w k := by
  simp only [patterns, List.forall_mem_cons]
  exact ⟨⟨_, _, anthropicKey_guarded⟩, ⟨_, _, openaiKey_guarded⟩, ⟨_, _, googleAiKey_guarded⟩,
    ⟨_, _, engramiaKey_guarded⟩, ⟨_, _, bearerToken_guarded U⟩, ⟨_, _, jwt_guarded⟩,
    fun _ h => absurd h List.not_mem_nil⟩

theorem placeholder_labelled :
    ∀ p ∈ patterns U, ∃ letters ∈ labels, p.placeholder = '[' :: (letters ++ [']']) := by
  have hsame : (patterns U).map LogPattern.placeholder =
      labels.map fun letters => '[' :: (letters ++ [']']) := rfl
  intro p hp
  have hmem := List.mem_map_of_mem (f := LogPattern.placeholder) hp
  rw [hsame] at hmem
  obtain ⟨letters, hletters, heq⟩ := List.mem_map.mp hmem
  exact ⟨letters, hletters, heq.symm⟩

end Laws

section Passes
variable {U : TextClasses} {p q : LogPattern} {w : Char → ℕ} {k : ℕ} {text : Text}
  {rules : List LogPattern}

theorem Guarded.consuming (h : Guarded p w k) : p.pattern.Consuming := by
  have hpos : 0 < k := Nat.zero_lt_of_lt (h.lighter _ List.mem_cons_self)
  intro c c' hc'
  obtain ⟨taken, hrest, _⟩ := ends_local hc'
  have hheavy := h.heavy.taken hc' hrest
  cases taken with
  | nil =>
      rw [weight_nil] at hheavy
      omega
  | cons x taken =>
      simp only [hrest, weight_append, weight_cons]
      omega

theorem takings_replace (hp : ∃ w k, Guarded p w k) (hq : q ∈ patterns U)
    (h : p.pattern.Takings (fun _ => False) text ∨ p = q) :
    p.pattern.Takings (fun _ => False) (q.replace text) := by
  obtain ⟨w, k, hp⟩ := hp
  obtain ⟨w', k', hq'⟩ := patterns_guarded U q hq
  obtain ⟨letters, hletters, hplaceholder⟩ := placeholder_labelled U q hq
  have houtside : Outside '[' letters ']' p.pattern :=
    ⟨hp.takes, w, k, hp.heavy, hp.lighter letters hletters⟩
  rw [LogPattern.replace, subKeeping, hplaceholder]
  exact takings_keepFrom hq'.consuming houtside hq'.heavy hq'.light none text
    (h.imp_right fun heq => ⟨congrArg LogPattern.pattern heq, hp.free⟩)

theorem takings_foldl (hp : ∃ w k, Guarded p w k) (hrules : ∀ q ∈ rules, q ∈ patterns U)
    (h : p.pattern.Takings (fun _ => False) text ∨ p ∈ rules) :
    p.pattern.Takings (fun _ => False) (rules.foldl (fun text q => q.replace text) text) := by
  induction rules generalizing text with
  | nil => exact h.resolve_right List.not_mem_nil
  | cons q rules ih =>
      obtain ⟨hq, hrules⟩ := List.forall_mem_cons.mp hrules
      apply ih hrules
      cases h with
      | inl h => exact .inl (takings_replace hp hq (.inl h))
      | inr hmem =>
          cases List.mem_cons.mp hmem with
          | inl heq => exact .inl (takings_replace hp hq (.inr heq))
          | inr hmem => exact .inr hmem

theorem clean_redact (U : TextClasses) (text : Text) :
    ∀ p ∈ patterns U, p.pattern.Clean (redact U text) := by
  intro p hp
  apply Takings.clean
  exact takings_foldl (patterns_guarded U p hp) (fun _ h => h) (.inr hp)

theorem foldl_clean (h : ∀ p ∈ rules, p.pattern.Clean text) :
    rules.foldl (fun text q => q.replace text) text = text := by
  induction rules with
  | nil => rfl
  | cons q rules ih =>
      obtain ⟨hq, hrules⟩ := List.forall_mem_cons.mp h
      have hsame : q.replace text = text := keepFrom_clean q.placeholder hq
      rw [List.foldl_cons, hsame]
      exact ih hrules

/-- A redacted message has no match of any pattern, and only a message with one is changed. -/
theorem redact_complete (U : TextClasses) (text : Text) :
    (∀ p ∈ patterns U, p.pattern.Clean (redact U text)) ∧
      (redact U text = text ↔ ∀ p ∈ patterns U, p.pattern.Clean text) ∧
      redact U (redact U text) = redact U text := by
  have hclean := clean_redact U text
  refine ⟨hclean, ⟨?_, foldl_clean⟩, foldl_clean hclean⟩
  intro hsame
  rw [hsame] at hclean
  exact hclean

end Passes

end Engramia.Telemetry
