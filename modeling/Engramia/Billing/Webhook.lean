import Engramia.Billing.Metering

/-!
Stripe webhook processing. A delivery carries the verified event, the clock
reading, the subscription objects Stripe would return, and which of the
handler's database statements and Stripe calls fail.

Handlers log and swallow database errors; only malformed subscription data
and an unexpected Stripe client error leave the handler as an exception.
-/
namespace Engramia.Billing

structure SubscriptionItem where
  interval : String
  currentPeriodEnd : Option Int
  priceId : Option String
deriving DecidableEq, Repr

structure Metadata where
  planTier : Option String
  tenantId : Option String
deriving DecidableEq, Repr

structure SubscriptionData where
  customer : String
  id : String
  status : String
  items : List SubscriptionItem
  currentPeriodEnd : Option Int
  metadata : Metadata
  cancelAtPeriodEnd : Bool
deriving DecidableEq, Repr

structure CheckoutSession where
  mode : String
  clientReferenceId : Option String
  customer : Option String
  subscription : Option String
deriving DecidableEq, Repr

inductive EventBody where
  | checkoutSessionCompleted (session : CheckoutSession)
  | subscriptionCreated (data : SubscriptionData)
  | subscriptionUpdated (data : SubscriptionData)
  | subscriptionDeleted (customer : String)
  | invoicePaymentFailed (customer : String)
  | invoicePaid (customer : String)
  | invoiceCreated (customer : Option String)
  | unhandled (type : String)
deriving DecidableEq, Repr

def EventBody.type : EventBody → String
  | .checkoutSessionCompleted _ => "checkout.session.completed"
  | .subscriptionCreated _ => "customer.subscription.created"
  | .subscriptionUpdated _ => "customer.subscription.updated"
  | .subscriptionDeleted _ => "customer.subscription.deleted"
  | .invoicePaymentFailed _ => "invoice.payment_failed"
  | .invoicePaid _ => "invoice.paid"
  | .invoiceCreated _ => "invoice.created"
  | .unhandled type => type

structure Event where
  id : String
  body : EventBody
deriving DecidableEq, Repr

/-- How a call to the Stripe API ends: normally, with one of `_STRIPE_ERRORS`,
or with any other exception (no SDK, no secret key). -/
inductive StripeCall where
  | ok
  | stripeError
  | otherError
deriving DecidableEq, Repr

/-- The statements and calls of one handler run that fail. Each occurs at most
once while one event is handled. -/
structure Faults where
  isEventProcessed : Bool := false
  linkSession : Bool := false
  retrieveSubscription : Bool := false
  tenantByCustomer : Bool := false
  upsert : Bool := false
  downgrade : Bool := false
  setStatus : Bool := false
  subscription : SubscriptionReads := {}
  overageSettings : Bool := false
  usageCount : Bool := false
  invoiceItem : StripeCall := .ok
  markProcessed : Bool := false
deriving DecidableEq, Repr

structure Delivery where
  event : Event
  clock : Clock
  /-- The subscription object Stripe holds under an id. -/
  stripe : String → SubscriptionData
  faults : Faults := {}

/-- `os.environ.get(name, "").strip()` of the price variables. -/
abbrev Environ := String → String

inductive PyError where
  | valueError (message : String)
  | runtimeError
deriving DecidableEq, Repr

structure HandlerResult where
  world : World
  raised : Option PyError := none

/-- `_PRICE_ENV_VARS`. -/
def priceEnvVars : List ((String × String) × String) :=
  [(("pro", "monthly"), "STRIPE_PRICE_PRO_MONTHLY"),
   (("pro", "yearly"), "STRIPE_PRICE_PRO_YEARLY"),
   (("team", "monthly"), "STRIPE_PRICE_TEAM_MONTHLY"),
   (("team", "yearly"), "STRIPE_PRICE_TEAM_YEARLY"),
   (("business", "monthly"), "STRIPE_PRICE_BUSINESS_MONTHLY"),
   (("business", "yearly"), "STRIPE_PRICE_BUSINESS_YEARLY")]

def planTierFromPriceId (environ : Environ) (priceId : Option String) : Option String := do
  let price ← truthy priceId
  let entry ← priceEnvVars.find? fun e => environ e.2 ≠ "" ∧ environ e.2 = price
  return entry.1.1

/-- Metadata first, then the price mapping, then `"pro"`. -/
def resolvePlanTier (environ : Environ) (item : SubscriptionItem) (m : Metadata) : String :=
  match truthy m.planTier with
  | some tier => tier
  | none => (truthy (planTierFromPriceId environ item.priceId)).getD "pro"

/-- Item first, then subscription root; a zero on the item counts as absent. -/
def rawPeriodEnd (item : SubscriptionItem) (data : SubscriptionData) : Option Int :=
  match item.currentPeriodEnd.filter (· ≠ 0) with
  | some t => some t
  | none => data.currentPeriodEnd

/-- The bound parameters `_upsert_subscription` derives from the event. -/
def upsertParams (environ : Environ) (data : SubscriptionData) :
    Except PyError UpsertParams :=
  let sub := data.id
  match data.items with
  | [] => .error (.valueError s!"Subscription {sub} has no items")
  | item :: _ =>
      match rawPeriodEnd item data with
      | none =>
          .error (.valueError s!"Subscription {sub} has no current_period_end on item or root")
      | some periodEnd =>
          let tier := resolvePlanTier environ item data.metadata
          .ok
            { cid := data.customer
              sid := sub
              tier := tier
              interval := item.interval
              status := data.status
              limits := planLimitsOrDeveloper tier
              periodEnd := periodEnd
              cancelEop := data.cancelAtPeriodEnd }

def tenantIdByCustomer (fails : Bool) (w : World) (cid : String) : Option String :=
  if fails then none else (w.rowOfCustomer cid).map (·.tenantId)

/-- The linked tenant, else the one named in the subscription metadata. -/
def resolveTenant (fails : Bool) (w : World) (data : SubscriptionData) : Option String :=
  match truthy (tenantIdByCustomer fails w data.customer) with
  | some tid => some tid
  | none => truthy data.metadata.tenantId

def upsertSubscription (environ : Environ) (f : Faults) (w : World)
    (data : SubscriptionData) : HandlerResult :=
  match upsertParams environ data with
  | .error e => { world := w, raised := some e }
  | .ok p =>
      match resolveTenant f.tenantByCustomer w data with
      | none => { world := w }
      | some tid => { world := (w.execute f.upsert (.upsertSubscription tid p)).getD w }

def downgradeToSandbox (f : Faults) (w : World) (cid : String) : HandlerResult :=
  { world := (w.execute f.downgrade (.downgradeToSandbox cid)).getD w }

def setStatusByCustomer (f : Faults) (now : Int) (w : World) (cid status : String) :
    HandlerResult :=
  { world := (w.execute f.setStatus (.setStatusByCustomer cid status now)).getD w }

def linkCheckoutSession (environ : Environ) (d : Delivery) (w : World)
    (session : CheckoutSession) : HandlerResult :=
  if session.mode ≠ "subscription" then { world := w }
  else
    match truthy session.clientReferenceId, truthy session.customer with
    | some tid, some cid =>
        match w.execute d.faults.linkSession (.linkCustomer tid cid) with
        | none => { world := w }
        | some w' =>
            match truthy session.subscription with
            | none => { world := w' }
            | some sid =>
                if d.faults.retrieveSubscription then { world := w' }
                else upsertSubscription environ d.faults w' (d.stripe sid)
    | _, _ => { world := w }

/-- The invoice item `_report_overage_for_customer` creates for a counter
value, if the subscription and the overage settings call for one. -/
def overageItem (customerId : String) (sub : BillingSubscription)
    (overage : Option OverageSettings) (count : Nat) : Option InvoiceItem :=
  match sub.evalRunsLimit, overage.filter (·.enabled) with
  | some limit, some o =>
      let excess := overageUnits count limit
      let size := o.unitSize
      let units := excess / size
      if units = 0 then none
      else
        let amount : Int := (units * o.pricePerUnitCents : Nat)
        some
          { customerId := customerId
            amountCents := (o.budgetCapCents.map (min amount)).getD amount
            description :=
              s!"Engramia overage: {excess} eval runs ({units} x {size} run blocks)"
            subscriptionId := truthy sub.stripeSubscriptionId }
  | _, _ => none

/-- The reads of `_report_overage_for_customer`, up to the Stripe call. -/
def overageCharge (f : Faults) (period : Period) (w : World) (cid : String) :
    Option InvoiceItem := do
  let tid ← truthy (tenantIdByCustomer f.tenantByCustomer w cid)
  overageItem cid (getSubscription f.subscription w tid)
    (getOverageSettings f.overageSettings w tid) (getCount f.usageCount w tid period)

/-- `create_invoice_item` as the handler sees it. -/
def createInvoiceItem (call : StripeCall) (w : World) (item : InvoiceItem) : HandlerResult :=
  match call with
  | .ok => { world := { w with invoiceItems := w.invoiceItems ++ [item] } }
  | .stripeError => { world := w }
  | .otherError => { world := w, raised := some .runtimeError }

def reportOverageForCustomer (f : Faults) (period : Period) (w : World) (cid : String) :
    HandlerResult :=
  match overageCharge f period w cid with
  | none => { world := w }
  | some item => createInvoiceItem f.invoiceItem w item

def World.hasProcessed (w : World) (eventId : String) : Bool :=
  w.processedEvents.any (·.1 == eventId)

def isEventProcessed (fails : Bool) (w : World) (eventId : String) : Bool :=
  !fails && w.hasProcessed eventId

/-- `INSERT … ON CONFLICT DO NOTHING`. -/
def markEventProcessed (fails : Bool) (w : World) (e : Event) : World :=
  if fails || w.hasProcessed e.id then w
  else { w with processedEvents := w.processedEvents ++ [(e.id, e.body.type)] }

/-- The dispatch on the event type. -/
def dispatchEvent (environ : Environ) (d : Delivery) (w : World) : HandlerResult :=
  match d.event.body with
  | .checkoutSessionCompleted session => linkCheckoutSession environ d w session
  | .subscriptionCreated data => upsertSubscription environ d.faults w data
  | .subscriptionUpdated data => upsertSubscription environ d.faults w data
  | .subscriptionDeleted cid => downgradeToSandbox d.faults w cid
  | .invoicePaymentFailed cid => setStatusByCustomer d.faults d.clock.now w cid "past_due"
  | .invoicePaid cid => setStatusByCustomer d.faults d.clock.now w cid "active"
  | .invoiceCreated customer =>
      match truthy customer with
      | some cid => reportOverageForCustomer d.faults d.clock.period w cid
      | none => { world := w }
  | .unhandled _ => { world := w }

/-- `handle_webhook_event` on a verified event. Unless it raises it returns
the event type, which is `d.event.body.type`. -/
def handleWebhookEvent (environ : Environ) (d : Delivery) (w : World) : HandlerResult :=
  if isEventProcessed d.faults.isEventProcessed w d.event.id then { world := w }
  else
    let r := dispatchEvent environ d w
    match r.raised with
    | some _ => r
    | none => { world := markEventProcessed d.faults.markProcessed r.world d.event }

section Sample

/-- A database with the single tenant `acme`, for the fixed runs of the later
modules. -/
def acmeWorld (planTier : Option String) (rows : List SubscriptionRow)
    (valid : SubscriptionsValid rows) : World :=
  { tenants := [⟨"acme", planTier⟩]
    subscriptions := rows
    overageSettings := []
    usageCounters := []
    processedEvents := []
    invoiceItems := []
    valid := valid }

theorem acme_ne_empty : "acme" ≠ "" := by decide

/-- The row of `acme` on a paid subscription. -/
def acmeRow : SubscriptionRow :=
  { tenantId := "acme"
    stripeCustomerId := some "cus_1"
    stripeSubscriptionId := some "sub_1"
    planTier := "pro"
    billingInterval := "month"
    status := "active"
    evalRunsLimit := some 50000
    patternsLimit := some 100000
    projectsLimit := some 10
    currentPeriodEnd := some 1770000000
    pastDueSince := none
    cancelAtPeriodEnd := false }

def acmePaidWorld : World := acmeWorld none [acmeRow] (by decide)

def acmeData (status : String) : SubscriptionData :=
  { customer := "cus_1"
    id := "sub_1"
    status := status
    items := [⟨"month", some 1770000000, none⟩]
    currentPeriodEnd := none
    metadata := ⟨some "pro", none⟩
    cancelAtPeriodEnd := false }

def acmeDelivery (id : String) (now : Int) (body : EventBody) : Delivery :=
  { event := ⟨id, body⟩
    clock := ⟨now, ⟨2026, 1⟩⟩
    stripe := fun _ => acmeData "active" }

end Sample

end Engramia.Billing
