import Engramia.Billing.Plans

/-!
Limit enforcement: whether a subscription is usable, and whether its quota
still admits another evaluation or pattern. Reminder log lines are left out;
everything a caller can see is kept, the error texts included.
-/
namespace Engramia.Billing

/-- `HTTPException` with the keys its detail dictionary may carry. -/
structure HttpError where
  statusCode : Nat
  error : String
  message : String
  metric : Option String := none
  current : Option Nat := none
  limit : Option Nat := none
  resetDate : Option String := none
deriving DecidableEq, Repr

def gracePeriodDays : Int := 7

def microsPerDay : Int := 86400000000

/-- `timedelta.days`: the floor of the difference in days. -/
def deltaDays (now since : Int) : Int := (now - since) / microsPerDay

def paymentRequired : HttpError :=
  { statusCode := 402
    error := "payment_required"
    message := "Your subscription payment is past due. Update your payment method to continue." }

def subscriptionCanceled : HttpError :=
  { statusCode := 403
    error := "subscription_canceled"
    message := "Your subscription has been canceled. Subscribe again to continue using Engramia." }

def checkSubscriptionActive (now : Int) (sub : BillingSubscription) : Except HttpError Unit :=
  if sub.status = "past_due" then
    match sub.pastDueSince.bind fromIsoFormat with
    | some since =>
        if deltaDays now since < gracePeriodDays then .ok () else .error paymentRequired
    -- no timestamp, or one that does not parse: the tenant is blocked
    | none => .error paymentRequired
  else if sub.status = "canceled" then .error subscriptionCanceled
  else .ok ()

def twoDigits (n : Nat) : String :=
  if n < 10 then s!"0{n}" else s!"{n}"

/-- `_next_period_start`. Years have four digits in `strftime`. -/
def nextPeriodStart (p : Period) : String :=
  let year := if p.month = 12 then p.year + 1 else p.year
  let month := twoDigits (if p.month = 12 then 1 else p.month + 1)
  s!"{year}-{month}-01"

def budgetCapReached (current limit : Nat) : HttpError :=
  { statusCode := 429
    error := "overage_budget_cap_reached"
    message := "Monthly overage budget cap reached. Increase your cap or upgrade your plan."
    current := some current
    limit := some limit }

def evalQuotaExceeded (p : Period) (current limit : Nat) : HttpError :=
  let resetDate := nextPeriodStart p
  { statusCode := 429
    error := "quota_exceeded"
    metric := some "eval_runs"
    current := some current
    limit := some limit
    resetDate := some resetDate
    message := s!"Monthly eval run quota reached. Quota resets on {resetDate}." }

def patternQuotaExceeded (p : Period) (current limit : Nat) : HttpError :=
  { statusCode := 429
    error := "quota_exceeded"
    metric := some "patterns"
    current := some current
    limit := some limit
    resetDate := some (nextPeriodStart p)
    message := "Pattern quota reached. Delete old patterns or upgrade your plan." }

/-- `LimitEnforcer.check_eval_runs` on the counter value it reads. -/
def checkEvalRuns (clock : Clock) (sub : BillingSubscription)
    (overage : Option OverageSettings) (count : Nat) : Except HttpError Unit := do
  checkSubscriptionActive clock.now sub
  match sub.evalRunsLimit with
  | none => .ok ()
  | some limit =>
      if count < limit then .ok ()
      else
        match overage.filter (·.enabled) with
        | some o =>
            match o.budgetCapCents with
            | some cap =>
                let excessUnits := (count - limit) / o.unitSize
                if ((excessUnits * o.pricePerUnitCents : Nat) : Int) < cap then .ok ()
                else .error (budgetCapReached count limit)
            | none => .ok ()
        | none => .error (evalQuotaExceeded clock.period count limit)

/-- `LimitEnforcer.check_patterns`. -/
def checkPatterns (clock : Clock) (sub : BillingSubscription) (current : Nat) :
    Except HttpError Unit := do
  checkSubscriptionActive clock.now sub
  match sub.patternsLimit with
  | none => .ok ()
  | some limit =>
      if current < limit then .ok ()
      else .error (patternQuotaExceeded clock.period current limit)

theorem deltaDays_lt_grace (now since : Int) :
    deltaDays now since < gracePeriodDays ↔ now < since + 7 * microsPerDay := by
  rw [deltaDays, gracePeriodDays, microsPerDay]
  omega

/-- With a readable timestamp a past-due tenant is let in for exactly seven
days from it. -/
theorem checkSubscriptionActive_grace {now since : Int} {sub : BillingSubscription}
    (hstatus : sub.status = "past_due") (hsince : sub.pastDueSince = some (.instant since)) :
    checkSubscriptionActive now sub = .ok () ↔ now < since + 7 * microsPerDay := by
  rw [← deltaDays_lt_grace]
  simp only [checkSubscriptionActive, hstatus, if_true, hsince, Option.bind_some, fromIsoFormat]
  split <;> simp_all

theorem checkSubscriptionActive_no_clock {now : Int} {sub : BillingSubscription}
    (hstatus : sub.status = "past_due") (hsince : sub.pastDueSince = none) :
    checkSubscriptionActive now sub = .error paymentRequired := by
  simp [checkSubscriptionActive, hstatus, hsince]

theorem checkSubscriptionActive_error {now : Int} {sub : BillingSubscription} {e : HttpError}
    (h : checkSubscriptionActive now sub = .error e) :
    e = paymentRequired ∨ e = subscriptionCanceled := by
  rw [checkSubscriptionActive] at h
  split at h
  · cases hsince : sub.pastDueSince.bind fromIsoFormat with
    | none =>
        rw [hsince] at h
        cases h
        exact .inl rfl
    | some since =>
        simp only [hsince] at h
        split at h <;> cases h
        exact .inl rfl
  · split at h <;> cases h
    exact .inr rfl

theorem checkPatterns_ok {clock : Clock} {sub : BillingSubscription} {current limit : Nat}
    (h : checkPatterns clock sub current = .ok ()) (hlimit : sub.patternsLimit = some limit) :
    current < limit := by
  rw [checkPatterns, hlimit] at h
  cases hactive : checkSubscriptionActive clock.now sub with
  | error e =>
      rw [hactive] at h
      cases h
  | ok u =>
      simp only [hactive, bind, Except.bind] at h
      split at h
      · assumption
      · cases h

end Engramia.Billing
