import Engramia.Billing.Store
import Engramia.Billing.Enforcement
import Engramia.Library.Whitespace

/-!
The effective subscription of a tenant: its `billing_subscriptions` row, else
the tier an operator put on the tenant, else the developer default. The reads
take a flag for a failing database.
-/
namespace Engramia.Billing

open Engramia.Library

/-- Python truthiness of an optional string. -/
def truthy (s : Option String) : Option String := s.filter (· ≠ "")

/-- `s.strip().lower()`. Characters that `lower` maps to an ASCII letter from
outside ASCII occur in no plan name, so the ASCII map decides alike. -/
def stripLower (s : String) : String :=
  String.ofList ((stripChars isspace s.toList).map Char.toLower)

/-- `_admin_assigned_plan`. -/
def adminAssignedPlan (fails : Bool) (w : World) (tenantId : String) : Option String :=
  if fails then none
  else
    match w.tenants.find? (·.id == tenantId) with
    | none => none
    | some row =>
        let tier := stripLower (row.planTier.getD "")
        if tier = "" ∨ tier = "free" ∨ tier = "developer" then none
        else if (planLimits.lookup tier).isNone then none
        else some tier

/-- The record `get_subscription` builds from a row. -/
def SubscriptionRow.toSubscription (r : SubscriptionRow) : BillingSubscription :=
  { tenantId := r.tenantId
    stripeCustomerId := r.stripeCustomerId
    stripeSubscriptionId := r.stripeSubscriptionId
    planTier := if r.planTier = "" then "developer" else r.planTier
    billingInterval := if r.billingInterval = "" then "month" else r.billingInterval
    status := if r.status = "" then "active" else r.status
    evalRunsLimit := r.evalRunsLimit
    patternsLimit := r.patternsLimit
    projectsLimit := r.projectsLimit
    currentPeriodEnd := r.currentPeriodEnd
    pastDueSince := r.pastDueSince
    cancelAtPeriodEnd := r.cancelAtPeriodEnd }

/-- Which reads of `get_subscription` fail. -/
structure SubscriptionReads where
  row : Bool := false
  adminPlan : Bool := false
deriving DecidableEq, Repr

/-- What an operator-assigned tier is worth without a billing row. -/
def adminSubscription (tenantId tier : String) : BillingSubscription :=
  let limits := planLimitsOrDeveloper tier
  { tenantId := tenantId
    planTier := tier
    status := "active"
    evalRunsLimit := limits.evalRuns
    patternsLimit := limits.patterns
    projectsLimit := limits.projects }

/-- `get_subscription`. -/
def getSubscription (fails : SubscriptionReads) (w : World) (tenantId : String) :
    BillingSubscription :=
  if fails.row then developerDefault tenantId
  else
    match w.rowOfTenant tenantId with
    | some row => row.toSubscription
    | none =>
        match adminAssignedPlan fails.adminPlan w tenantId with
        | some tier => adminSubscription tenantId tier
        | none => developerDefault tenantId

/-- `get_overage_settings` for `eval_runs`. -/
def getOverageSettings (fails : Bool) (w : World) (tenantId : String) :
    Option OverageSettings :=
  if fails then none
  else
    (w.overageSettings.find? fun r =>
      r.tenantId == tenantId && r.metric == metricEvalRuns).map (·.settings)

/-- The plan a tenant is effectively on, as `get_subscription` reports it. -/
structure EffectivePlan where
  tier : String
  evalRunsLimit : Option Nat
  patternsLimit : Option Nat
  projectsLimit : Option Nat
deriving DecidableEq, Repr

def BillingSubscription.plan (s : BillingSubscription) : EffectivePlan :=
  ⟨s.planTier, s.evalRunsLimit, s.patternsLimit, s.projectsLimit⟩

def effectivePlan (w : World) (tenantId : String) : EffectivePlan :=
  (getSubscription {} w tenantId).plan

/-- A plan with the limits the configuration gives it. -/
def configuredPlan (tier : String) : EffectivePlan :=
  let limits := planLimitsOrDeveloper tier
  ⟨tier, limits.evalRuns, limits.patterns, limits.projects⟩

theorem truthy_eq_some {s : Option String} {v : String} :
    truthy s = some v ↔ s = some v ∧ v ≠ "" := by
  cases s with
  | none => simp [truthy]
  | some x =>
      simp only [truthy, Option.filter_eq_some_iff, Option.some.injEq, decide_not,
        Bool.not_eq_true', decide_eq_false_iff_not]

theorem getSubscription_of_row {w : World} {tid : String} {r : SubscriptionRow}
    (h : w.rowOfTenant tid = some r) : getSubscription {} w tid = r.toSubscription := by
  simp [getSubscription, h]

theorem getSubscription_of_no_row {w : World} {tid : String}
    (h : w.rowOfTenant tid = none) :
    getSubscription {} w tid =
      ((adminAssignedPlan false w tid).map (adminSubscription tid)).getD
        (developerDefault tid) := by
  simp only [getSubscription, h, Bool.false_eq_true, if_false]
  cases adminAssignedPlan false w tid <;> rfl

theorem effectivePlan_of_row {w : World} {tid : String} {r : SubscriptionRow}
    (h : w.rowOfTenant tid = some r) : effectivePlan w tid = r.toSubscription.plan := by
  rw [effectivePlan, getSubscription_of_row h]

theorem effectivePlan_congr {w w' : World} {tid : String}
    (hrow : w'.rowOfTenant tid = w.rowOfTenant tid)
    (htenant : w'.tenants.find? (·.id == tid) = w.tenants.find? (·.id == tid)) :
    effectivePlan w' tid = effectivePlan w tid := by
  simp only [effectivePlan, getSubscription, hrow, adminAssignedPlan, htenant]

end Engramia.Billing
