import Engramia.Credentials.RoleMeter
import Mathlib.Data.Rat.Floor
import Mathlib.Tactic.NormNum

/-!
How far the cost of a call is from the exact one. Each of its two sides is rounded down to cents
on its own, so what is lost is what both sides leave over: less than two cents, and less than one
exactly when the remainders do not make up a cent between them.
-/
namespace Engramia.Credentials

section Cents
variable (rate : Rate) (u : Usage)

/-- The exact cost in cents. -/
def Rate.exactCents : ℚ := rate.exactCost u / million

/-- What the two roundings leave over, in millionths of a cent. -/
def Rate.leftOver : ℕ :=
  rate.inputPer1mCents * u.tokensIn % million + rate.outputPer1mCents * u.tokensOut % million

/-- A call for at least the tokens of another. -/
def Usage.AtMost (u' : Usage) : Prop := u.tokensIn ≤ u'.tokensIn ∧ u.tokensOut ≤ u'.tokensOut

/-- A cost in whole cents that is short of the exact one by less than a cent, and that no
further token lowers. -/
def WithinOneCent (provider : Provider) (model : String) : Prop :=
  ∃ rate c, rateCard.lookup (provider, model) = some rate ∧ costFor provider model u = some c ∧
    (c : ℚ) ≤ rate.exactCents u ∧ rate.exactCents u < c + 1 ∧
    ∀ u', u.AtMost u' → ∃ c', costFor provider model u' = some c' ∧ c ≤ c'

variable {rate u}

theorem Rate.exactCost_eq : rate.exactCost u = rate.costCents u * million + rate.leftOver u := by
  have hin := Nat.div_add_mod' (rate.inputPer1mCents * u.tokensIn) million
  have hout := Nat.div_add_mod' (rate.outputPer1mCents * u.tokensOut) million
  rw [Rate.exactCost, Rate.costCents, Rate.leftOver, Nat.add_mul]
  omega

theorem million_pos : (0 : ℚ) < million := by
  norm_num [million]

theorem Rate.costCents_le : (rate.costCents u : ℚ) ≤ rate.exactCents u := by
  rw [Rate.exactCents, le_div_iff₀ million_pos, Rate.exactCost_eq]
  exact_mod_cast Nat.le_add_right _ _

theorem Rate.exactCents_lt_iff :
    rate.exactCents u < rate.costCents u + 1 ↔ rate.leftOver u < million := by
  rw [Rate.exactCents, div_lt_iff₀ million_pos, Rate.exactCost_eq, add_mul, one_mul]
  norm_cast
  exact Nat.add_lt_add_iff_left

theorem Rate.costCents_mono {u' : Usage} (h : u.AtMost u') :
    rate.costCents u ≤ rate.costCents u' :=
  Nat.add_le_add (Nat.div_le_div_right (Nat.mul_le_mul_left _ h.1))
    (Nat.div_le_div_right (Nat.mul_le_mul_left _ h.2))

theorem costFor_eq {provider : Provider} {model : String}
    (hrate : rateCard.lookup (provider, model) = some rate) (u : Usage) :
    costFor provider model u = some (rate.costCents u) := by
  rw [costFor, hrate, Option.map_some]

theorem withinOneCent_of_leftOver {provider : Provider} {model : String}
    (hrate : rateCard.lookup (provider, model) = some rate) (hleft : rate.leftOver u < million) :
    WithinOneCent u provider model := by
  refine ⟨rate, rate.costCents u, hrate, costFor_eq hrate u, Rate.costCents_le,
    Rate.exactCents_lt_iff.mpr hleft, ?_⟩
  intro u' hu'
  exact ⟨rate.costCents u', costFor_eq hrate u', Rate.costCents_mono hu'⟩

end Cents

theorem cost_within_cent_iff {provider : Provider} {model : String} {rate : Rate}
    (hrate : rateCard.lookup (provider, model) = some rate) (u : Usage) :
    WithinOneCent u provider model ↔
      rate.inputPer1mCents * u.tokensIn % million +
        rate.outputPer1mCents * u.tokensOut % million < million := by
  constructor
  · intro h
    obtain ⟨rate', c, hrate', hc, _, hlt, _⟩ := h
    cases hrate.symm.trans hrate'
    cases (costFor_eq hrate u).symm.trans hc
    exact Rate.exactCents_lt_iff.mp hlt
  · exact withinOneCent_of_leftOver hrate

/-- A call to `gpt-4o` for a million tokens each way. -/
theorem cost_within_cent_gpt4o : WithinOneCent ⟨1000000, 1000000⟩ .openai "gpt-4o" := by
  have hrate : rateCard.lookup (.openai, "gpt-4o") = some ⟨250, 1000⟩ := rfl
  exact (cost_within_cent_iff hrate _).mpr (by decide)

/-- Each side of this call leaves most of a cent over, and the call is recorded as free. -/
theorem cent_lost : ¬ ∀ (provider : Provider) (model : String) (u : Usage),
    (rateCard.lookup (provider, model)).isSome = true → WithinOneCent u provider model := by
  intro h
  obtain ⟨rate, c, hrate, hc, _, hlt, _⟩ := h .openai "gpt-4o" ⟨3999, 999⟩ rfl
  have hgpt4o : rateCard.lookup (.openai, "gpt-4o") = some ⟨250, 1000⟩ := rfl
  cases hgpt4o.symm.trans hrate
  cases (costFor_eq hgpt4o ⟨3999, 999⟩).symm.trans hc
  exact absurd (Rate.exactCents_lt_iff.mp hlt) (by decide)

end Engramia.Credentials
