import Engramia.Billing.Subscription

/-!
The two admin endpoints that change billing state: plan override and dunning
state. Authentication and the admin audit trail are left out; the flag says
that the database fails inside the endpoint's transaction.
-/
namespace Engramia.Billing

open Engramia.Library

inductive AdminOutcome (α : Type) where
  | succeeded (response : α)
  | httpError (statusCode : Nat) (detail : String)
  | databaseError
deriving DecidableEq, Repr

def AdminOutcome.isSuccess {α : Type} : AdminOutcome α → Bool
  | .succeeded _ => true
  | _ => false

def validPlans : List String :=
  ["sandbox", "developer", "pro", "team", "business", "enterprise"]

def validDunningStates : List String :=
  ["active", "past_due", "canceled", "paid_offline", "escaped"]

structure PlanOverrideResponse where
  tenantId : String
  previousPlan : String
  newPlan : String
deriving DecidableEq, Repr

structure DunningStateResponse where
  tenantId : String
  previousState : String
  newState : String
deriving DecidableEq, Repr

/-- `UPDATE tenants SET plan_tier = :plan WHERE id = :tid`. -/
def setPlanTier (tid plan : String) : List TenantRow → List TenantRow :=
  updateWhere (·.id == tid) fun t => { t with planTier := some plan }

/-- `override_plan`. -/
def overridePlan (fails : Bool) (w : World) (tid plan : String) :
    World × AdminOutcome PlanOverrideResponse :=
  if plan ∉ validPlans then (w, .httpError 400 s!"Unknown plan: {plan}")
  else if fails then (w, .databaseError)
  else
    match w.tenants.find? (·.id == tid) with
    | none => (w, .httpError 404 "Tenant not found")
    | some previous =>
        ({ w with tenants := setPlanTier tid plan w.tenants },
          .succeeded ⟨tid, previous.planTier.getD "None", plan⟩)

/-- `change_dunning_state`. -/
def changeDunningState (fails : Bool) (w : World) (tid state : String) :
    World × AdminOutcome DunningStateResponse :=
  if state ∉ validDunningStates then (w, .httpError 400 s!"Unknown state: {state}")
  else if fails then (w, .databaseError)
  else
    match w.rowOfTenant tid with
    | none =>
        (w, .httpError 404 "No billing_subscriptions row for this tenant (admin-override plans only).")
    | some row =>
        match w.execute fails (.changeDunningState tid state) with
        | none => (w, .databaseError)
        | some w' => (w', .succeeded ⟨tid, row.status, state⟩)

end Engramia.Billing
