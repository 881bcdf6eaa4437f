import Engramia.Library.Regex
import Mathlib.Logic.Function.Iterate

/-!
The number of matches of a scan, and what a substitution does to the weight of a text. When the
inserted text is lighter than every match, each match that is replaced makes the text lighter, so
passes that make a text lighter as long as there is something to do come to an end.
-/
namespace Engramia.Library.Regex

universe u
variable {α : Type u}

section Definitions

/-- The number of matches behind `skip` further characters of a match. -/
def countFrom (r : Regex α) : ℕ → Option α → List α → ℕ
  | _, _, [] => 0
  | skip + 1, _, x :: rest => countFrom r skip (some x) rest
  | 0, prev, x :: rest =>
      match r.matchLength ⟨prev, x :: rest⟩ with
      | some n => countFrom r (n - 1) (some x) rest + 1
      | none => countFrom r 0 (some x) rest

/-- `len(re.findall(text))` -/
def count (r : Regex α) (text : List α) : ℕ :=
  countFrom r 0 none text

end Definitions

variable {w : α → ℕ} {q r : Regex α} {replacement : List α} {prev : Option α} {x : α}
  {taken rest text : List α}

theorem countFrom_skip (taken : List α) :
    countFrom r taken.length prev (taken ++ rest) = countFrom r 0 (before prev taken) rest := by
  induction taken generalizing prev with
  | nil => rfl
  | cons x taken ih => exact ih

theorem countFrom_kept (h : ¬ r.Matches ⟨prev, x :: rest⟩) :
    countFrom r 0 prev (x :: rest) = countFrom r 0 (some x) rest := by
  rw [countFrom, matchLength_eq_none.mpr h]

theorem countFrom_found (hlen : r.matchLength ⟨prev, taken ++ rest⟩ = some taken.length)
    (hne : taken ≠ []) :
    countFrom r 0 prev (taken ++ rest) = countFrom r 0 (before prev taken) rest + 1 := by
  cases taken with
  | nil => exact absurd rfl hne
  | cons x taken =>
      rw [List.cons_append] at hlen ⊢
      rw [countFrom, hlen]
      exact congrArg (· + 1) (countFrom_skip taken)

theorem countFrom_eq_zero (hr : r.Consuming) (prev : Option α) (text : List α) :
    countFrom r 0 prev text = 0 ↔ r.CleanFrom prev text := by
  induction prev, text using scan_induction hr with
  | done prev =>
      constructor
      · intro _
        exact cleanFrom_nil hr
      · intro _
        rfl
  | kept prev x rest hkept ih =>
      rw [countFrom_kept hkept, ih]
      constructor
      · intro h
        exact .cons hkept h
      · intro h
        exact h.tail
  | found prev taken rest hne hends hlen ih =>
      rw [countFrom_found hlen hne]
      constructor
      · intro h
        cases h
      · intro h
        exact absurd (matches_iff.mpr ⟨_, hends⟩) h.here

theorem count_eq_zero (hr : r.Consuming) : r.count text = 0 ↔ r.Clean text :=
  countFrom_eq_zero hr none text

theorem WeighsAtLeast.consuming {k : ℕ} (h : WeighsAtLeast w r (k + 1)) : r.Consuming := by
  intro c c' hc
  obtain ⟨taken, hrest, _⟩ := ends_local hc
  have htaken := h.taken hc hrest
  rw [hrest]
  cases taken with
  | nil =>
      rw [weight_nil] at htaken
      omega
  | cons x taken =>
      rw [List.cons_append, weight_cons, weight_append]
      omega

/-- A substitution by a text lighter than every match takes off one for each match. -/
theorem weight_subFrom (hq : WeighsAtLeast w q (weight w replacement + 1)) (prev : Option α)
    (text : List α) :
    weight w (subFrom q replacement 0 prev text) + countFrom q 0 prev text ≤ weight w text := by
  induction prev, text using scan_induction hq.consuming with
  | done prev => exact le_refl _
  | kept prev x rest hkept ih =>
      rw [subFrom_kept hkept, countFrom_kept hkept, weight_cons, weight_cons]
      omega
  | found prev taken rest hne hends hlen ih =>
      have htaken := hq.taken hends rfl
      rw [subFrom_found hlen hne, countFrom_found hlen hne, weight_append, weight_append]
      omega

theorem weight_sub (hq : WeighsAtLeast w q (weight w replacement + 1)) (text : List α) :
    weight w (q.sub replacement text) + q.count text ≤ weight w text :=
  weight_subFrom hq none text

theorem exists_pass_done {f : List α → List α} (Done : List α → Prop)
    (h : ∀ text, ¬ Done text → weight w (f text) < weight w text) (text : List α) :
    ∃ n ≤ weight w text, Done (f^[n] text) := by
  induction hlen : weight w text using Nat.strong_induction_on generalizing text with
  | h total ih =>
      by_cases hdone : Done text
      · exact ⟨0, Nat.zero_le total, hdone⟩
      · have hless := h text hdone
        rw [hlen] at hless
        obtain ⟨n, hn, hend⟩ := ih _ hless (f text) rfl
        exact ⟨n + 1, by omega, hend⟩

end Engramia.Library.Regex
