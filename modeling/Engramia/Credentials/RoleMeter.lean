import Engramia.Credentials.Providers

/-!
What a call costs and where it is recorded: the rate card and the role meter's
counters, by tenant, credential, role and month. The card is in cents per
million tokens and a cost is rounded down to cents for each of its two sides;
the exact cost is kept beside it, in millionths of a cent.
-/
namespace Engramia.Credentials

open Engramia.Library

structure Rate where
  inputPer1mCents : Nat
  outputPer1mCents : Nat
deriving DecidableEq, Repr

def rateCard : List ((Provider × String) × Rate) :=
  [((.openai, "gpt-5"), ⟨250, 1000⟩),
    ((.openai, "gpt-4.1"), ⟨200, 800⟩),
    ((.openai, "gpt-4.1-mini"), ⟨40, 160⟩),
    ((.openai, "gpt-4o"), ⟨250, 1000⟩),
    ((.openai, "gpt-4o-mini"), ⟨15, 60⟩),
    ((.openai, "text-embedding-3-small"), ⟨2, 0⟩),
    ((.openai, "text-embedding-3-large"), ⟨13, 0⟩),
    ((.anthropic, "claude-opus-4-7"), ⟨1500, 7500⟩),
    ((.anthropic, "claude-sonnet-4-6"), ⟨300, 1500⟩),
    ((.anthropic, "claude-haiku-4-5"), ⟨80, 400⟩),
    ((.gemini, "gemini-2.5-pro"), ⟨125, 1000⟩),
    ((.gemini, "gemini-2.5-flash"), ⟨30, 250⟩),
    ((.gemini, "gemini-embedding-001"), ⟨2, 0⟩)]

/-- The tokens a provider reports for a call. -/
structure Usage where
  tokensIn : Nat
  tokensOut : Nat
deriving DecidableEq, Repr

/-- The tokens a rate is given for, and the parts a cent is counted in. -/
def million : Nat := 1000000

/-- In millionths of a cent. -/
def Rate.exactCost (rate : Rate) (u : Usage) : Nat :=
  rate.inputPer1mCents * u.tokensIn + rate.outputPer1mCents * u.tokensOut

def Rate.costCents (rate : Rate) (u : Usage) : Nat :=
  rate.inputPer1mCents * u.tokensIn / million + rate.outputPer1mCents * u.tokensOut / million

/-- `cost_for`. -/
def costFor (provider : Provider) (model : String) (u : Usage) : Option Nat :=
  (rateCard.lookup (provider, model)).map fun rate => rate.costCents u

structure SpendKey where
  tenantId : String
  credentialId : String
  role : String
  month : String
deriving DecidableEq, Repr

structure SpendRow where
  spendCents : Nat
  tokensIn : Nat
  tokensOut : Nat
deriving DecidableEq, Repr

abbrev SpendCounters := OrderedDict SpendKey SpendRow

/-- `RoleMeter.get_spend`, which answers 0 when the read fails. -/
def getSpend (counters : SpendCounters) (k : SpendKey) (fails : Bool) : Nat :=
  if fails then 0 else ((counters.get? k).map SpendRow.spendCents).getD 0

def SpendRow.add (row : SpendRow) (costCents : Nat) (u : Usage) : SpendRow :=
  ⟨row.spendCents + costCents, row.tokensIn + u.tokensIn, row.tokensOut + u.tokensOut⟩

/-- `RoleMeter.increment_spend`; a write that fails is logged. -/
def incrementSpend (counters : SpendCounters) (k : SpendKey) (costCents : Nat) (u : Usage)
    (fails : Bool) : SpendCounters :=
  if costCents = 0 ∨ fails = true then counters
  else counters.set k (((counters.get? k).getD ⟨0, 0, 0⟩).add costCents u)

theorem getSpend_incrementSpend (counters : SpendCounters) (k k' : SpendKey) (costCents : Nat)
    (u : Usage) :
    getSpend (incrementSpend counters k costCents u false) k' false =
      getSpend counters k' false + if k' = k then costCents else 0 := by
  simp only [getSpend, incrementSpend, Bool.false_eq_true, or_false, if_false]
  by_cases hzero : costCents = 0
  · simp [hzero]
  · rw [if_neg hzero, OrderedDict.get?_set]
    by_cases hk : k' = k
    · subst hk
      rw [if_pos rfl, if_pos rfl]
      cases counters.get? k' with
      | none => rfl
      | some row => rfl
    · rw [if_neg hk, if_neg hk, Nat.add_zero]

theorem incrementSpend_fails (counters : SpendCounters) (k : SpendKey) (costCents : Nat)
    (u : Usage) : incrementSpend counters k costCents u true = counters :=
  if_pos (.inr rfl)

end Engramia.Credentials
