import Engramia.Billing.Plans
import Engramia.Library.Relation

/-!
The billing tables and every statement that writes `billing_subscriptions`.

The table carries the database's own constraints as a field: tenant,
customer and subscription columns are unique. No migration declares a key to
the tenants table, so a row may be there for a tenant that is not. A
statement whose result would break one of the constraints fails, like a
statement the database could not run, and leaves the tables as they were. Row
ids and the created and updated timestamps are not read by anything modelled.
-/
namespace Engramia.Billing

open Engramia.Library

structure TenantRow where
  id : String
  planTier : Option String
deriving DecidableEq, Repr

structure SubscriptionRow where
  tenantId : String
  stripeCustomerId : Option String
  stripeSubscriptionId : Option String
  planTier : String
  billingInterval : String
  status : String
  evalRunsLimit : Option Nat
  patternsLimit : Option Nat
  projectsLimit : Option Nat
  /-- Seconds since the epoch; the column holds the same instant as text. -/
  currentPeriodEnd : Option Int
  pastDueSince : Option IsoText
  cancelAtPeriodEnd : Bool
deriving DecidableEq, Repr

structure OverageRow where
  tenantId : String
  metric : String
  settings : OverageSettings
deriving DecidableEq

structure UsageCounter where
  tenantId : String
  metric : String
  period : Period
  count : Nat
deriving DecidableEq, Repr

/-- An invoice item created at Stripe. -/
structure InvoiceItem where
  customerId : String
  amountCents : Int
  description : String
  subscriptionId : Option String
deriving DecidableEq, Repr

structure SubscriptionsValid (rows : List SubscriptionRow) : Prop where
  tenantUnique : UniqueOn (fun r => some r.tenantId) rows
  customerUnique : UniqueOn (·.stripeCustomerId) rows
  subscriptionUnique : UniqueOn (·.stripeSubscriptionId) rows

instance (rows : List SubscriptionRow) : Decidable (SubscriptionsValid rows) :=
  decidable_of_iff
    (UniqueOn (fun r => some r.tenantId) rows ∧ UniqueOn (·.stripeCustomerId) rows ∧
      UniqueOn (·.stripeSubscriptionId) rows)
    ⟨fun h => ⟨h.1, h.2.1, h.2.2⟩,
      fun h => ⟨h.tenantUnique, h.customerUnique, h.subscriptionUnique⟩⟩

/-- The billing database together with the invoice items at Stripe. -/
structure World where
  tenants : List TenantRow
  subscriptions : List SubscriptionRow
  overageSettings : List OverageRow
  usageCounters : List UsageCounter
  /-- `processed_webhook_events`: event id and event type. -/
  processedEvents : List (String × String)
  invoiceItems : List InvoiceItem
  valid : SubscriptionsValid subscriptions
deriving DecidableEq

/-- Bound parameters of the upsert in `_upsert_subscription`, apart from the
tenant. -/
structure UpsertParams where
  cid : String
  sid : String
  tier : String
  interval : String
  status : String
  limits : PlanLimits
  periodEnd : Int
  cancelEop : Bool
deriving DecidableEq, Repr

/-- The columns the upsert sets, on insert and on conflict alike. -/
def UpsertParams.assign (p : UpsertParams) (r : SubscriptionRow) : SubscriptionRow :=
  { r with
    stripeSubscriptionId := some p.sid
    planTier := p.tier
    billingInterval := p.interval
    status := p.status
    evalRunsLimit := p.limits.evalRuns
    patternsLimit := p.limits.patterns
    projectsLimit := p.limits.projects
    currentPeriodEnd := some p.periodEnd
    cancelAtPeriodEnd := p.cancelEop }

/-- A row with the server defaults of the migrations. -/
def defaultRow (tenantId : String) (customerId : Option String) : SubscriptionRow :=
  { tenantId := tenantId
    stripeCustomerId := customerId
    stripeSubscriptionId := none
    planTier := "developer"
    billingInterval := "month"
    status := "active"
    evalRunsLimit := some 500
    patternsLimit := some 5000
    projectsLimit := some 1
    currentPeriodEnd := none
    pastDueSince := none
    cancelAtPeriodEnd := false }

def SubscriptionRow.setCustomer (cid : String) (r : SubscriptionRow) : SubscriptionRow :=
  { r with stripeCustomerId := some cid }

def SubscriptionRow.downgrade (r : SubscriptionRow) : SubscriptionRow :=
  { r with
    planTier := "sandbox"
    status := "canceled"
    evalRunsLimit := developerLimits.evalRuns
    patternsLimit := developerLimits.patterns
    projectsLimit := developerLimits.projects
    cancelAtPeriodEnd := false }

/-- The first failure of a dunning cycle starts the clock, retries keep it. -/
def SubscriptionRow.setPastDue (now : Int) (r : SubscriptionRow) : SubscriptionRow :=
  { r with status := "past_due", pastDueSince := some (r.pastDueSince.getD (.instant now)) }

def SubscriptionRow.setActive (r : SubscriptionRow) : SubscriptionRow :=
  { r with status := "active", pastDueSince := none }

def SubscriptionRow.setStatus (status : String) (r : SubscriptionRow) : SubscriptionRow :=
  { r with status := status }

/-- The statement of the admin dunning endpoint. -/
def SubscriptionRow.changeDunning (state : String) (r : SubscriptionRow) : SubscriptionRow :=
  if state = "past_due" then { r with status := state }
  else { r with status := state, pastDueSince := none }

inductive Statement where
  /-- `_link_checkout_session`. -/
  | linkCustomer (tid cid : String)
  /-- `_upsert_subscription`. -/
  | upsertSubscription (tid : String) (p : UpsertParams)
  /-- `_downgrade_to_sandbox`. -/
  | downgradeToSandbox (cid : String)
  /-- The three branches of `_set_status_by_customer`. -/
  | setStatusByCustomer (cid status : String) (now : Int)
  /-- `create_stripe_customer`. -/
  | saveStripeCustomer (tid cid : String)
  /-- `change_dunning_state`. -/
  | changeDunningState (tid state : String)
deriving DecidableEq, Repr

def onTenant (tid : String) (r : SubscriptionRow) : Bool := r.tenantId == tid

def onCustomer (cid : String) (r : SubscriptionRow) : Bool := r.stripeCustomerId == some cid

def statusUpdate (status : String) (now : Int) : SubscriptionRow → SubscriptionRow :=
  if status = "past_due" then .setPastDue now
  else if status = "active" then .setActive
  else .setStatus status

def Statement.run : Statement → List SubscriptionRow → List SubscriptionRow
  | .linkCustomer tid cid =>
      insertOnConflict (onTenant tid) (.setCustomer cid)
        ((defaultRow tid (some cid)).setStatus "incomplete")
  | .upsertSubscription tid p =>
      insertOnConflict (onTenant tid) p.assign (p.assign (defaultRow tid (some p.cid)))
  | .downgradeToSandbox cid => updateWhere (onCustomer cid) .downgrade
  | .setStatusByCustomer cid status now =>
      updateWhere (onCustomer cid) (statusUpdate status now)
  | .saveStripeCustomer tid cid =>
      insertOnConflict (onTenant tid) (.setCustomer cid)
        { defaultRow tid (some cid) with
          planTier := "sandbox"
          billingInterval := "month"
          status := "active"
          evalRunsLimit := developerLimits.evalRuns
          patternsLimit := developerLimits.patterns
          projectsLimit := developerLimits.projects }
  | .changeDunningState tid state => updateWhere (onTenant tid) (.changeDunning state)

theorem SubscriptionsValid.updateWhere {rows : List SubscriptionRow}
    {p : SubscriptionRow → Bool} {f : SubscriptionRow → SubscriptionRow}
    (h : SubscriptionsValid rows)
    (htid : ∀ r, (f r).tenantId = r.tenantId)
    (hcid : ∀ r, (f r).stripeCustomerId = r.stripeCustomerId)
    (hsid : ∀ r, (f r).stripeSubscriptionId = r.stripeSubscriptionId) :
    SubscriptionsValid (updateWhere p f rows) := by
  refine ⟨?_, ?_, ?_⟩
  · exact h.tenantUnique.updateWhere fun r _ => congrArg some (htid r)
  · exact h.customerUnique.updateWhere fun r _ => hcid r
  · exact h.subscriptionUnique.updateWhere fun r _ => hsid r

theorem statusUpdate_keys (status : String) (now : Int) (r : SubscriptionRow) :
    (statusUpdate status now r).tenantId = r.tenantId ∧
    (statusUpdate status now r).stripeCustomerId = r.stripeCustomerId ∧
    (statusUpdate status now r).stripeSubscriptionId = r.stripeSubscriptionId := by
  rw [statusUpdate]
  split
  · exact ⟨rfl, rfl, rfl⟩
  · split <;> exact ⟨rfl, rfl, rfl⟩

def World.commit (w : World) (rows : List SubscriptionRow) : Option World :=
  if h : SubscriptionsValid rows then some { w with subscriptions := rows, valid := h }
  else none

/-- Run a statement in its own transaction; `none` is a `SQLAlchemyError`. -/
def World.execute (w : World) (fails : Bool) (st : Statement) : Option World :=
  if fails then none else w.commit (st.run w.subscriptions)

/-- `SELECT … WHERE tenant_id = :tid`. -/
def World.rowOfTenant (w : World) (tid : String) : Option SubscriptionRow :=
  w.subscriptions.find? (onTenant tid)

/-- `SELECT … WHERE stripe_customer_id = :cid`. -/
def World.rowOfCustomer (w : World) (cid : String) : Option SubscriptionRow :=
  w.subscriptions.find? (onCustomer cid)

theorem World.commit_eq_some {w w' : World} {rows : List SubscriptionRow}
    (h : w.commit rows = some w') :
    w'.subscriptions = rows ∧ w'.tenants = w.tenants ∧
      w'.overageSettings = w.overageSettings ∧ w'.usageCounters = w.usageCounters ∧
      w'.processedEvents = w.processedEvents ∧ w'.invoiceItems = w.invoiceItems := by
  rw [World.commit] at h
  split at h
  · cases h
    exact ⟨rfl, rfl, rfl, rfl, rfl, rfl⟩
  · cases h

/-- A committed statement changed the subscription rows as it says and
nothing else. -/
theorem World.execute_eq_some {w w' : World} {fails : Bool} {st : Statement}
    (h : w.execute fails st = some w') :
    fails = false ∧ w'.subscriptions = st.run w.subscriptions ∧ w'.tenants = w.tenants ∧
      w'.overageSettings = w.overageSettings ∧ w'.usageCounters = w.usageCounters ∧
      w'.processedEvents = w.processedEvents ∧ w'.invoiceItems = w.invoiceItems := by
  rw [World.execute] at h
  split at h
  · cases h
  · rename_i hf
    exact ⟨by simpa using hf, World.commit_eq_some h⟩

theorem World.execute_isSome_iff {w : World} {fails : Bool} {st : Statement} :
    (w.execute fails st).isSome ↔
      fails = false ∧ SubscriptionsValid (st.run w.subscriptions) := by
  rw [World.execute, World.commit]
  cases fails <;> simp

/-- Only a fault of the database keeps a webhook's status update from
committing: no constraint speaks of the columns it writes. -/
theorem World.execute_setStatus_isSome {w : World} {fails : Bool} {cid status : String}
    {now : Int} :
    (w.execute fails (.setStatusByCustomer cid status now)).isSome ↔ fails = false := by
  rw [World.execute_isSome_iff, and_iff_left_iff_imp]
  intro _
  apply w.valid.updateWhere
  · exact fun r => (statusUpdate_keys status now r).1
  · exact fun r => (statusUpdate_keys status now r).2.1
  · exact fun r => (statusUpdate_keys status now r).2.2

theorem World.execute_downgrade_isSome {w : World} {fails : Bool} {cid : String} :
    (w.execute fails (.downgradeToSandbox cid)).isSome ↔ fails = false := by
  rw [World.execute_isSome_iff, and_iff_left_iff_imp]
  intro _
  apply w.valid.updateWhere <;> intro r <;> rfl

section Rows
variable {w : World}

theorem World.onTenant_unique (w : World) {tid : String} {a b : SubscriptionRow}
    (ha : a ∈ w.subscriptions) (hb : b ∈ w.subscriptions)
    (hta : a.tenantId = tid) (htb : b.tenantId = tid) : a = b :=
  w.valid.tenantUnique.eq_of_key ha hb (congrArg some hta) (congrArg some htb)

theorem World.onCustomer_unique (w : World) {cid : String} {a b : SubscriptionRow}
    (ha : a ∈ w.subscriptions) (hb : b ∈ w.subscriptions)
    (hca : a.stripeCustomerId = some cid) (hcb : b.stripeCustomerId = some cid) : a = b :=
  w.valid.customerUnique.eq_of_key ha hb hca hcb

theorem onTenant_iff {tid : String} {r : SubscriptionRow} :
    onTenant tid r = true ↔ r.tenantId = tid := by
  simp [onTenant]

theorem onCustomer_iff {cid : String} {r : SubscriptionRow} :
    onCustomer cid r = true ↔ r.stripeCustomerId = some cid := by
  simp [onCustomer]

theorem onTenant_eq_false {tid : String} {r : SubscriptionRow} :
    onTenant tid r = false ↔ r.tenantId ≠ tid := by
  simp [onTenant]

theorem find?_insertOnTenant {rows : List SubscriptionRow} {tid : String}
    {f : SubscriptionRow → SubscriptionRow} {new : SubscriptionRow}
    (hf : ∀ r, (f r).tenantId = r.tenantId) (hnew : new.tenantId = tid) (t : String) :
    (insertOnConflict (onTenant tid) f new rows).find? (onTenant t) =
      if t = tid then some (((rows.find? (onTenant tid)).map f).getD new)
      else rows.find? (onTenant t) := by
  by_cases ht : t = tid
  · subst ht
    rw [if_pos rfl]
    apply find?_insertOnConflict_self
    · intro r hr
      rw [onTenant_iff, hf]
      exact onTenant_iff.mp hr
    · exact onTenant_iff.mpr hnew
  · rw [if_neg ht]
    apply find?_insertOnConflict_other
    · intro r hr
      rw [onTenant_eq_false, onTenant_iff.mp hr]
      exact fun heq => ht heq.symm
    · intro r hr
      rw [onTenant_eq_false, hf, onTenant_iff.mp hr]
      exact fun heq => ht heq.symm
    · rw [onTenant_eq_false, hnew]
      exact fun heq => ht heq.symm

theorem find?_updateOnTenant {rows : List SubscriptionRow} {p : SubscriptionRow → Bool}
    {f : SubscriptionRow → SubscriptionRow} (hf : ∀ r, (f r).tenantId = r.tenantId)
    (t : String) :
    (updateWhere p f rows).find? (onTenant t) =
      (rows.find? (onTenant t)).map fun r => if p r then f r else r := by
  apply find?_updateWhere
  intro r _
  simp only [onTenant, hf]

theorem World.rowOfTenant_eq_some {tid : String} {r : SubscriptionRow} :
    w.rowOfTenant tid = some r ↔ r ∈ w.subscriptions ∧ r.tenantId = tid := by
  rw [← onTenant_iff]
  apply find?_eq_some_of_unique
  intro a ha b hb hta htb
  exact w.onTenant_unique ha hb (onTenant_iff.mp hta) (onTenant_iff.mp htb)

theorem World.rowOfTenant_eq_none {tid : String} :
    w.rowOfTenant tid = none ↔ ∀ r ∈ w.subscriptions, r.tenantId ≠ tid := by
  rw [World.rowOfTenant, List.find?_eq_none]
  simp only [onTenant_iff]

theorem World.rowOfCustomer_eq_some {cid : String} {r : SubscriptionRow} :
    w.rowOfCustomer cid = some r ↔ r ∈ w.subscriptions ∧ r.stripeCustomerId = some cid := by
  rw [← onCustomer_iff]
  apply find?_eq_some_of_unique
  intro a ha b hb hca hcb
  exact w.onCustomer_unique ha hb (onCustomer_iff.mp hca) (onCustomer_iff.mp hcb)

theorem World.rowOfCustomer_eq_none {cid : String} :
    w.rowOfCustomer cid = none ↔ ∀ r ∈ w.subscriptions, r.stripeCustomerId ≠ some cid := by
  rw [World.rowOfCustomer, List.find?_eq_none]
  simp only [onCustomer_iff]

end Rows

end Engramia.Billing
