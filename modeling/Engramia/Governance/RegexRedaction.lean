import Engramia.Governance.RegexRules
import Engramia.Library.Run
import Engramia.Patterns.Redaction

/-!
The regex redactor: the rules one after another, each over what the rules before it have left.
A rule that comes later can take away the word or the digit that kept an earlier rule from
matching. So a pass leaves matches, but only at the placeholders, and passes one after another
come to an end at a text in which nothing is found.

For the placeholders the text is marked: each character with whether a rule has inserted it.
-/
namespace Engramia.Governance
open Engramia.Library Engramia.Library.Regex Engramia.Patterns Engramia.Storage

section Definitions
variable (U : TextClasses)

/-- The body of the loop in `redact`. -/
def replaceMatches (text : Text) (rule : RegexRule) : Text :=
  rule.pattern.sub rule.replacement text

/-- The body of the loop in `scan`. -/
def finding (text : Text) (rule : RegexRule) : Option Finding :=
  let found := rule.pattern.count text
  if found = 0 then none else some { field := [], kind := rule.name, count := found }

/-- `RegexRedactor` -/
def regexRedactor : RedactionHook where
  scan text := (regexRules U).filterMap (finding text)
  redact text := exec replaceMatches text (regexRules U)

/-- A text with a mark at each inserted character. -/
abbrev MarkedText := List (Char × Bool)

def chars (text : MarkedText) : Text := text.map Prod.fst

def replaceMarked (text : MarkedText) (rule : RegexRule) : MarkedText :=
  (rule.pattern.comap Prod.fst).sub (rule.replacement.map fun ch => (ch, true)) text

/-- The text after `redact`, marked. -/
def redactMarked (text : Text) : MarkedText :=
  exec replaceMarked (text.map fun ch => (ch, false)) (regexRules U)

/-- A match takes no inserted character, and stands right behind or right before one. -/
def BesideInserted (r : Regex Char) (text : MarkedText) : Prop :=
  ∀ left taken right, text = left ++ (taken ++ right) →
    ⟨before none (chars (left ++ taken)), chars right⟩ ∈
        r.ends ⟨before none (chars left), chars (taken ++ right)⟩ →
      (∀ x ∈ taken, x.2 = false) ∧
        ((before none left).any Prod.snd = true ∨ right.head?.any Prod.snd = true)

/-- The rules of which a pass leaves nothing. -/
def Exhausted (name : Text) : Prop :=
  name = "email".toList ∨ name = "jwt".toList ∨ name = "hex_secret".toList

instance (name : Text) : Decidable (Exhausted name) :=
  inferInstanceAs (Decidable (_ ∨ _ ∨ _))

end Definitions

section Passes
variable {U : TextClasses} {rule : RegexRule} {rules : List RegexRule} {text : Text}

theorem Lawful.consuming (h : Lawful rule) : rule.pattern.Consuming :=
  h.weighs.consuming

theorem Lawful.heavier (h : Lawful rule) :
    rule.pattern.WeighsAtLeast weigh (weight weigh rule.replacement + 1) := by
  obtain ⟨letters, hreplacement, hlight⟩ := h.inserts
  apply h.weighs.mono
  rw [hreplacement, weight_cons, weight_append, weight_cons, weight_nil]
  have hopening : weigh '[' = 0 := rfl
  have hclosing : weigh ']' = 0 := rfl
  omega

theorem finding_eq_none (h : Lawful rule) : finding text rule = none ↔ rule.pattern.Clean text := by
  rw [← count_eq_zero h.consuming, finding]
  split
  case isTrue hzero => simp [hzero]
  case isFalse hfound => simp [hfound]

theorem scan_eq_nil :
    (regexRedactor U).scan text = [] ↔ ∀ rule ∈ regexRules U, rule.pattern.Clean text := by
  have hnone : (regexRedactor U).scan text = [] ↔
      ∀ rule ∈ regexRules U, finding text rule = none := List.filterMap_eq_nil_iff
  rw [hnone]
  constructor
  · intro h rule hrule
    exact (finding_eq_none (regexRules_lawful U rule hrule)).mp (h rule hrule)
  · intro h rule hrule
    exact (finding_eq_none (regexRules_lawful U rule hrule)).mpr (h rule hrule)

theorem weight_replaceMatches (h : Lawful rule) (text : Text) :
    weight weigh (replaceMatches text rule) + rule.pattern.count text ≤ weight weigh text :=
  weight_sub h.heavier text

theorem weight_exec_le (h : ∀ rule ∈ rules, Lawful rule) :
    weight weigh (exec replaceMatches text rules) ≤ weight weigh text := by
  induction rules generalizing text with
  | nil => exact le_refl _
  | cons rule rules ih =>
      obtain ⟨hrule, hrules⟩ := List.forall_mem_cons.mp h
      have hfirst := weight_replaceMatches hrule text
      have hrest := @ih (replaceMatches text rule) hrules
      rw [exec_cons]
      omega

theorem exec_replaceMatches (h : ∀ rule ∈ rules, Lawful rule) :
    ((∀ rule ∈ rules, rule.pattern.Clean text) → exec replaceMatches text rules = text) ∧
      (¬ (∀ rule ∈ rules, rule.pattern.Clean text) →
        weight weigh (exec replaceMatches text rules) < weight weigh text) := by
  induction rules with
  | nil => exact ⟨fun _ => rfl, fun hfound => absurd (fun _ h => absurd h List.not_mem_nil) hfound⟩
  | cons rule rules ih =>
      obtain ⟨hrule, hrules⟩ := List.forall_mem_cons.mp h
      rw [List.forall_mem_cons, exec_cons]
      by_cases hclean : rule.pattern.Clean text
      · have hsame : replaceMatches text rule = text := hclean.sub_eq rule.replacement
        rw [hsame, and_iff_right hclean]
        exact ih hrules
      · constructor
        · intro hall
          exact absurd hall.1 hclean
        · intro _
          have hcount : rule.pattern.count text ≠ 0 :=
            fun hzero => hclean ((count_eq_zero hrule.consuming).mp hzero)
          have hfirst := weight_replaceMatches hrule text
          have hrest := @weight_exec_le rules (replaceMatches text rule) hrules
          omega

theorem redact_of_clean (h : (regexRedactor U).scan text = []) :
    (regexRedactor U).redact text = text :=
  (exec_replaceMatches (regexRules_lawful U)).1 (scan_eq_nil.mp h)

theorem weight_redact_lt (h : (regexRedactor U).scan text ≠ []) :
    weight weigh ((regexRedactor U).redact text) < weight weigh text :=
  (exec_replaceMatches (regexRules_lawful U)).2 fun hclean => h (scan_eq_nil.mpr hclean)

theorem scan_eq_nil_iff_redact :
    (regexRedactor U).scan text = [] ↔ (regexRedactor U).redact text = text := by
  constructor
  · exact redact_of_clean
  · intro hsame
    by_contra hfound
    have hless := weight_redact_lt hfound
    rw [hsame] at hless
    omega

theorem weight_le_length (text : Text) : weight weigh text ≤ 10 * text.length := by
  have hchar : ∀ ch, weigh ch ≤ 10 := by
    intro ch
    rw [weigh]
    split
    case isTrue => exact Nat.zero_le 10
    case isFalse =>
        split
        case isTrue => decide
        case isFalse => exact le_refl 10
  induction text with
  | nil => exact Nat.zero_le _
  | cons ch text ih =>
      have hfirst := hchar ch
      rw [weight_cons, List.length_cons]
      omega

end Passes

section Marks
variable {U : TextClasses} {q r : RegexRule} {rules : List RegexRule} {text : MarkedText}

/-- No match of the rule keeps clear of what was inserted, and there is none at all where it has
no conditions. -/
structure RuleSettled (rule : RegexRule) (text : MarkedText) : Prop where
  touches : TouchesFrom Prod.snd (rule.pattern.comap Prod.fst) none text
  unconditional : rule.pattern.LookFree →
    (rule.pattern.comap Prod.fst).Takings (fun _ => False) text

/-- What a rule can take was there from the start. -/
def TakesOriginal (rule : RegexRule) (text : MarkedText) : Prop :=
  (rule.pattern.comap Prod.fst).Takings (fun taken => ∀ x ∈ taken, x.2 = false) text

theorem chars_replaceMarked (text : MarkedText) (rule : RegexRule) :
    chars (replaceMarked text rule) = replaceMatches (chars text) rule := by
  have hreplacement : (rule.replacement.map fun ch => (ch, true)).map Prod.fst =
      rule.replacement := by
    rw [List.map_map]
    exact List.map_id _
  rw [chars, replaceMarked, map_sub, hreplacement]
  rfl

theorem chars_exec (rules : List RegexRule) (text : MarkedText) :
    chars (exec replaceMarked text rules) = exec replaceMatches (chars text) rules := by
  induction rules generalizing text with
  | nil => rfl
  | cons rule rules ih =>
      rw [exec_cons, exec_cons, ih, chars_replaceMarked]

theorem chars_redactMarked (U : TextClasses) (text : Text) :
    chars (redactMarked U text) = (regexRedactor U).redact text := by
  have hstart : chars (text.map fun ch => (ch, false)) = text := by
    rw [chars, List.map_map]
    exact List.map_id _
  rw [redactMarked, chars_exec, hstart]
  rfl

theorem Lawful.replacement_marked (hq : Lawful q) :
    ∃ letters, (q.replacement.map fun ch => (ch, true)) =
        ('[', true) :: (letters ++ [(']', true)]) ∧
      (∀ x ∈ ('[', true) :: (letters ++ [(']', true)]), x.2 = true) ∧
      ∀ r, Lawful r → Outside ('[', true) letters (']', true) (r.pattern.comap Prod.fst) := by
  obtain ⟨letters, hreplacement, hlight⟩ := hq.inserts
  have hmap : (q.replacement.map fun ch => (ch, true)) =
      ('[', true) :: ((letters.map fun ch => (ch, true)) ++ [(']', true)]) := by
    rw [hreplacement, List.map_cons, List.map_append]
    rfl
  refine ⟨letters.map fun ch => (ch, true), hmap, ?_, ?_⟩
  · intro x hx
    rw [← hmap] at hx
    obtain ⟨ch, _, hch⟩ := List.mem_map.mp hx
    rw [← hch]
  · intro r hr
    constructor
    · apply (hr.takes.comap Prod.fst).mono
      intro x hx
      exact ⟨fun heq => hx.1 (congrArg Prod.fst heq), fun heq => hx.2 (congrArg Prod.fst heq)⟩
    · refine ⟨fun x => weigh x.1, 20, hr.weighs.comap Prod.fst, ?_⟩
      rw [weight_map]
      exact hlight

theorem Lawful.comap_consuming (hq : Lawful q) :
    (q.pattern.comap (Prod.fst : Char × Bool → Char)).Consuming :=
  (hq.weighs.comap Prod.fst).consuming

theorem ruleSettled_replaceMarked (hq : Lawful q) (hr : Lawful r) (h : r = q ∨ RuleSettled r text) :
    RuleSettled r (replaceMarked text q) := by
  obtain ⟨letters, hreplacement, hmark, houtside⟩ := hq.replacement_marked
  have hcomap : r = q → r.pattern.comap (Prod.fst : Char × Bool → Char) =
      q.pattern.comap Prod.fst := fun heq => heq ▸ rfl
  constructor
  · rw [replaceMarked, hreplacement]
    exact touches_subFrom hq.comap_consuming hmark none text (h.imp hcomap RuleSettled.touches)
  · intro hfree
    have hbefore : (r.pattern.comap Prod.fst).Takings (fun _ => False) text ∨
        r.pattern.comap Prod.fst = q.pattern.comap (Prod.fst : Char × Bool → Char) ∧
          (r.pattern.comap (Prod.fst : Char × Bool → Char)).LookFree := by
      cases h with
      | inl heq => exact .inr ⟨hcomap heq, hfree.comap Prod.fst⟩
      | inr h => exact .inl (h.unconditional hfree)
    rw [replaceMarked, hreplacement]
    exact takings_subFrom hq.comap_consuming (houtside r hr) none text hbefore

theorem ruleSettled_exec (hr : Lawful r) (hrules : ∀ q ∈ rules, Lawful q)
    (h : r ∈ rules ∨ RuleSettled r text) : RuleSettled r (exec replaceMarked text rules) := by
  induction rules generalizing text with
  | nil => exact h.resolve_left List.not_mem_nil
  | cons q rules ih =>
      obtain ⟨hq, hrules⟩ := List.forall_mem_cons.mp hrules
      rw [exec_cons]
      apply ih hrules
      cases h with
      | inl hmem =>
          cases List.mem_cons.mp hmem with
          | inl heq => exact .inr (ruleSettled_replaceMarked hq hr (.inl heq))
          | inr hmem => exact .inl hmem
      | inr h => exact .inr (ruleSettled_replaceMarked hq hr (.inr h))

theorem takesOriginal_exec (hr : Lawful r) (hrules : ∀ q ∈ rules, Lawful q)
    (h : TakesOriginal r text) : TakesOriginal r (exec replaceMarked text rules) := by
  induction rules generalizing text with
  | nil => exact h
  | cons q rules ih =>
      obtain ⟨hq, hrules⟩ := List.forall_mem_cons.mp hrules
      obtain ⟨letters, hreplacement, _, houtside⟩ := hq.replacement_marked
      rw [exec_cons]
      apply ih hrules
      rw [replaceMarked, hreplacement]
      exact takings_subFrom hq.comap_consuming (houtside r hr) none text (.inl h)

theorem ruleSettled_redactMarked (hr : r ∈ regexRules U) (text : Text) :
    RuleSettled r (redactMarked U text) :=
  ruleSettled_exec (regexRules_lawful U r hr) (regexRules_lawful U) (.inl hr)

theorem takesOriginal_redactMarked (hr : r ∈ regexRules U) (text : Text) :
    TakesOriginal r (redactMarked U text) := by
  apply takesOriginal_exec (regexRules_lawful U r hr) (regexRules_lawful U)
  intro left taken right hsplit _ x hx
  have hmem : x ∈ text.map fun ch => (ch, false) := by
    rw [hsplit]
    exact List.mem_append_right _ (List.mem_append_left _ hx)
  obtain ⟨ch, _, hch⟩ := List.mem_map.mp hmem
  rw [← hch]

theorem besideInserted_redactMarked (hr : r ∈ regexRules U) (text : Text) :
    BesideInserted r.pattern (redactMarked U text) := by
  intro left taken right hsplit hends
  have htouch := (ruleSettled_redactMarked hr text).touches
  apply htouch.beside (takesOriginal_redactMarked hr text) hsplit
  apply ends_comap
  rw [← before_append, map_before, map_before]
  exact hends

theorem clean_redact_of_lookFree (hr : r ∈ regexRules U) (hfree : r.pattern.LookFree)
    (text : Text) : r.pattern.Clean ((regexRedactor U).redact text) := by
  rw [← chars_redactMarked]
  exact ((ruleSettled_redactMarked hr text).unconditional hfree).clean.map Prod.fst

end Marks

section Findings
variable (U : TextClasses)

def secretPlaceholder : Placeholder Char.isAlphanum where
  opening := '['
  letters := "REDACTED_SECRET".toList
  closing := ']'
  openingApart := by decide
  closingApart := by decide

theorem hexSecretRule_framed : Framed secretPlaceholder hexSecretRule.pattern := by
  have hword : ∀ ch, hexDigit ch = true → ch.isAlphanum = true := by
    intro ch hch
    cases Bool.or_eq_true_iff.mp hch with
    | inl hdigit => rw [Char.isAlphanum, hdigit, Bool.or_true]
    | inr hletter =>
        obtain ⟨x, hx, heq⟩ := List.any_eq_true.mp hletter
        rw [← beq_iff_eq.mp heq]
        have hall : "abcdefABCDEF".toList.all Char.isAlphanum = true := by rfl
        exact List.all_eq_true.mp hall x hx
  apply framed_guarded
  · exact (hexDigits_weigh.mono (by decide : 20 ≤ 32 * 1)).consuming
  · exact TakesOnly.rep (a := char hexDigit) hword 32 32
  · exact fun _ _ => Alike.rep (a := char hexDigit) trivial 32 32
  · exact ⟨hexDigits_take, weigh, 32 * 1, hexDigits_weigh, by decide⟩

theorem clean_redact_hexSecret (text : Text) :
    hexSecretRule.pattern.Clean ((regexRedactor U).redact text) := by
  have hlast : (regexRedactor U).redact text = hexSecretRule.pattern.sub hexSecretRule.replacement
      (exec replaceMatches text ((regexRules U).take 8)) := rfl
  rw [hlast]
  exact hexSecretRule_framed.clean_sub_self _

theorem clean_redact_of_exhausted (text : Text) : ∀ rule ∈ regexRules U, Exhausted rule.name →
    rule.pattern.Clean ((regexRedactor U).redact text) := by
  have hemail : emailRule ∈ regexRules U := List.mem_cons_self
  have hjwt : jwtRule ∈ regexRules U :=
    List.mem_cons_of_mem _ (List.mem_cons_of_mem _ List.mem_cons_self)
  have hemailFree : emailRule.pattern.LookFree :=
    ⟨trivial, trivial, trivial, trivial, trivial, trivial⟩
  have hjwtFree : jwtRule.pattern.LookFree :=
    ⟨⟨trivial, trivial, trivial, trivial⟩, trivial, trivial, trivial, trivial, trivial, trivial⟩
  simp only [regexRules, List.forall_mem_cons]
  refine ⟨?_, ?_, ?_, ?_, ?_, ?_, ?_, ?_, ?_, fun _ h => absurd h List.not_mem_nil⟩
  · exact fun _ => clean_redact_of_lookFree hemail hemailFree text
  · exact fun h => absurd h (by decide : ¬ Exhausted "ipv4".toList)
  · exact fun _ => clean_redact_of_lookFree hjwt hjwtFree text
  · exact fun h => absurd h (by decide : ¬ Exhausted "openai_key".toList)
  · exact fun h => absurd h (by decide : ¬ Exhausted "aws_access_key".toList)
  · exact fun h => absurd h (by decide : ¬ Exhausted "github_token".toList)
  · exact fun h => absurd h (by decide : ¬ Exhausted "phone".toList)
  · exact fun h => absurd h (by decide : ¬ Exhausted "credit_card".toList)
  · exact fun _ => clean_redact_hexSecret U text

theorem exists_rule_of_finding {text : Text} {f : Finding} (h : f ∈ (regexRedactor U).scan text) :
    ∃ rule ∈ regexRules U, f.kind = rule.name ∧ ¬ rule.pattern.Clean text := by
  obtain ⟨rule, hrule, hfinding⟩ := List.mem_filterMap.mp h
  have hfound : finding text rule ≠ none := by
    rw [hfinding]
    exact Option.some_ne_none f
  refine ⟨rule, hrule, ?_, ?_⟩
  · rw [finding] at hfinding
    split at hfinding
    case isTrue => cases hfinding
    case isFalse => rw [← Option.some.inj hfinding]
  · exact fun hclean => hfound ((finding_eq_none (regexRules_lawful U rule hrule)).mpr hclean)

/-- What a pass of the regex redactor leaves, and that passes come to an end. -/
theorem regexRedactor_settles (text : Text) :
    ((regexRedactor U).scan text = [] ↔ (regexRedactor U).redact text = text) ∧
      (∀ f ∈ (regexRedactor U).scan ((regexRedactor U).redact text), ¬ Exhausted f.kind) ∧
      chars (redactMarked U text) = (regexRedactor U).redact text ∧
      (∀ rule ∈ regexRules U, BesideInserted rule.pattern (redactMarked U text)) ∧
      ∃ n ≤ 10 * text.length, (regexRedactor U).scan ((regexRedactor U).redact^[n] text) = [] := by
  refine ⟨scan_eq_nil_iff_redact, ?_, chars_redactMarked U text, ?_, ?_⟩
  · intro f hf hexhausted
    obtain ⟨rule, hrule, hkind, hfound⟩ := exists_rule_of_finding U hf
    rw [hkind] at hexhausted
    exact hfound (clean_redact_of_exhausted U text rule hrule hexhausted)
  · exact fun rule hrule => besideInserted_redactMarked hrule text
  · obtain ⟨n, hn, hdone⟩ := exists_pass_done (fun t => (regexRedactor U).scan t = [])
      (fun _ => weight_redact_lt) text
    exact ⟨n, hn.trans (weight_le_length text), hdone⟩

end Findings

section Sample

def asciiText : TextClasses where
  toUnicodeClasses := asciiClasses
  space ch := decide (9 ≤ ch.toNat ∧ ch.toNat ≤ 13) || decide (28 ≤ ch.toNat ∧ ch.toNat ≤ 32)
  ascii_space := fun _ _ => rfl

/-- The second number was kept back by the digit before it, which the first redaction removes. -/
theorem second_number_left :
    ¬ ∀ text, (regexRedactor asciiText).scan ((regexRedactor asciiText).redact text) = [] ∧
      (regexRedactor asciiText).redact ((regexRedactor asciiText).redact text) =
        (regexRedactor asciiText).redact text := by
  intro h
  have hfirst : (regexRedactor asciiText).redact "+12345+12345".toList =
      "[REDACTED_PHONE]+12345".toList := by
    decide +kernel
  have hsecond : (regexRedactor asciiText).redact "[REDACTED_PHONE]+12345".toList =
      "[REDACTED_PHONE][REDACTED_PHONE]".toList := by
    decide +kernel
  have hsame := (h "+12345+12345".toList).2
  rw [hfirst, hsecond] at hsame
  exact absurd hsame (by decide)

end Sample

end Engramia.Governance
