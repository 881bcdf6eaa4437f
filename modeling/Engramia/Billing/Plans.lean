import Mathlib.Data.List.Basic

/-!
Plan configuration and the in-memory billing records.

Plan tiers, intervals and subscription statuses are unvalidated text columns
of the database and stay strings here; the tables below are the only place
that gives a tier a meaning. A limit of `none` is unlimited.
-/
namespace Engramia.Billing

structure PlanLimits where
  evalRuns : Option Nat
  patterns : Option Nat
  projects : Option Nat
deriving DecidableEq, Repr

/-- Fair-use caps of the free tier. -/
def developerLimits : PlanLimits := ⟨some 5000, some 10000, some 2⟩

/-- `PLAN_LIMITS`. The last entry is the pre-6.6 alias of `developer`. -/
def planLimits : List (String × PlanLimits) :=
  [("developer", developerLimits),
   ("pro", ⟨some 50000, some 100000, some 10⟩),
   ("team", ⟨some 250000, some 1000000, some 50⟩),
   ("business", ⟨some 1000000, some 10000000, some 250⟩),
   ("enterprise", ⟨none, none, none⟩),
   ("sandbox", developerLimits)]

/-- `PLAN_LIMITS.get(tier, PLAN_LIMITS["developer"])`. -/
def planLimitsOrDeveloper (tier : String) : PlanLimits :=
  (planLimits.lookup tier).getD developerLimits

structure OverageTier where
  pricePerUnitCents : Nat
  unitSize : Nat
deriving DecidableEq, Repr

/-- `OVERAGE_CONFIG` for the only metered metric, `eval_runs`. -/
def overageConfig : List (String × OverageTier) :=
  [("pro", ⟨500, 5000⟩), ("team", ⟨2500, 50000⟩), ("business", ⟨10000, 250000⟩)]

def metricEvalRuns : String := "eval_runs"

/-- A stored ISO-8601 text: an instant in microseconds since the epoch, or
text `datetime.fromisoformat` rejects. -/
inductive IsoText where
  | instant (micros : Int)
  | malformed (text : String)
deriving DecidableEq, Repr

def fromIsoFormat : IsoText → Option Int
  | .instant t => some t
  | .malformed _ => none

structure BillingSubscription where
  tenantId : String
  stripeCustomerId : Option String := none
  stripeSubscriptionId : Option String := none
  planTier : String := "developer"
  billingInterval : String := "month"
  status : String := "active"
  evalRunsLimit : Option Nat := some 5000
  patternsLimit : Option Nat := some 10000
  projectsLimit : Option Nat := some 2
  currentPeriodEnd : Option Int := none
  pastDueSince : Option IsoText := none
  cancelAtPeriodEnd : Bool := false
deriving DecidableEq, Repr

/-- `developer_default`, also known as `sandbox_default`. -/
def developerDefault (tenantId : String) : BillingSubscription :=
  { tenantId := tenantId
    planTier := "developer"
    evalRunsLimit := developerLimits.evalRuns
    patternsLimit := developerLimits.patterns
    projectsLimit := developerLimits.projects }

/-- Overage opt-in of a tenant for `eval_runs`. `set_overage` is the only
writer and takes price and unit size from `overageConfig`, so the size a
charge divides by is positive. The cap is an unvalidated integer. -/
structure OverageSettings where
  enabled : Bool
  pricePerUnitCents : Nat
  unitSize : Nat
  budgetCapCents : Option Int
  unitSize_pos : 0 < unitSize
deriving DecidableEq

theorem overageConfig_unitSize_pos :
    ∀ entry ∈ overageConfig, 0 < entry.2.unitSize := by
  decide

structure Period where
  year : Nat
  month : Nat
deriving DecidableEq, Repr

/-- One reading of the UTC clock. -/
structure Clock where
  now : Int
  period : Period
deriving DecidableEq, Repr

end Engramia.Billing
