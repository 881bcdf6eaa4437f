import Engramia.Billing.Committed
import Mathlib.Algebra.Order.BigOperators.Group.List
import Mathlib.Algebra.Order.Ring.Int
import Mathlib.Data.List.Perm.Basic

/-!
Overage charges under interleaving. A delivery of `invoice.created` checks the
dedup table, reads the counter of the month that is current at that moment,
creates the item and records the event; other deliveries, increments and month
rollovers may come between any two of these. The history keeps which month
each delivery read, which it closes, and what was billed.
-/
namespace Engramia.Billing

open Engramia.Library

/-- The tenant, and the limit and overage settings that stay fixed. -/
structure OverageTerms where
  tid : String
  cid : String
  sub : BillingSubscription
  limit : Nat
  settings : OverageSettings
  tid_ne : tid ≠ ""
  limited : sub.evalRunsLimit = some limit
  enabled : settings.enabled = true

/-- The database shows the terms. -/
structure OverageTerms.Hold (t : OverageTerms) (w : World) : Prop where
  tenant : tenantIdByCustomer false w t.cid = some t.tid
  subscription : getSubscription {} w t.tid = t.sub
  settings : getOverageSettings false w t.tid = some t.settings

/-- What a month with that many runs costs. -/
def OverageTerms.due (t : OverageTerms) (runs : Nat) : Int :=
  let amount : Int := ((runs - t.limit) / t.settings.unitSize * t.settings.pricePerUnitCents : Nat)
  (t.settings.budgetCapCents.map (min amount)).getD amount

def itemAmount (item : Option InvoiceItem) : Int := (item.map (·.amountCents)).getD 0

inductive Stage where
  /-- `_is_event_processed` answered no. -/
  | checked
  /-- The item was computed from the counter of the month. -/
  | priced (month : Period) (item : Option InvoiceItem)
  /-- The item was created, or there was none to create. -/
  | charged
deriving DecidableEq

structure Handler where
  eventId : String
  stage : Stage
deriving DecidableEq

def invoiceCreated (t : OverageTerms) (eventId : String) : Event :=
  ⟨eventId, .invoiceCreated (some t.cid)⟩

structure CounterRead where
  month : Period
  closes : Period
  amount : Int
deriving DecidableEq

structure OverageState where
  world : World
  period : Period
  inFlight : List Handler
  reads : List CounterRead
  /-- Month and amount of the items created. -/
  bills : List (Period × Int)
deriving DecidableEq

inductive OverageOp where
  | increment
  | rollover
  | receive (eventId : String)
  | read (i : Nat)
  | charge (i : Nat)
  | finish (i : Nat)
deriving DecidableEq

section Machine
variable (t : OverageTerms) (closes : String → Period)

/-- One program step of one party. Handlers are picked by position; the one
that moved comes to the front. -/
def overageStep (s : OverageState) : OverageOp → OverageState
  | .increment => { s with world := increment false s.world t.tid s.period }
  | .rollover => { s with period := nextPeriod s.period }
  | .receive eventId =>
      if isEventProcessed false s.world eventId then s
      else { s with inFlight := ⟨eventId, .checked⟩ :: s.inFlight }
  | .read i =>
      match s.inFlight[i]? with
      | some ⟨eventId, .checked⟩ =>
          let item := overageCharge {} s.period s.world t.cid
          { s with
            inFlight := ⟨eventId, .priced s.period item⟩ :: s.inFlight.eraseIdx i
            reads := ⟨s.period, closes eventId, itemAmount item⟩ :: s.reads }
      | _ => s
  | .charge i =>
      match s.inFlight[i]? with
      | some ⟨eventId, .priced _ none⟩ =>
          { s with inFlight := ⟨eventId, .charged⟩ :: s.inFlight.eraseIdx i }
      | some ⟨eventId, .priced month (some item)⟩ =>
          { s with
            world := (createInvoiceItem .ok s.world item).world
            inFlight := ⟨eventId, .charged⟩ :: s.inFlight.eraseIdx i
            bills := (month, item.amountCents) :: s.bills }
      | _ => s
  | .finish i =>
      match s.inFlight[i]? with
      | some ⟨eventId, .charged⟩ =>
          { s with
            world := markEventProcessed false s.world (invoiceCreated t eventId)
            inFlight := s.inFlight.eraseIdx i }
      | _ => s

def OverageState.runs (s : OverageState) (m : Period) : Nat := getCount false s.world t.tid m

def OverageState.dueFor (s : OverageState) (m : Period) : Int := t.due (s.runs t m)

variable {t} in
/-- What was billed for a month. -/
def OverageState.total (s : OverageState) (m : Period) : Int :=
  (s.bills.map fun b => if b.1 = m then b.2 else 0).sum

def pendingAmount (m : Period) (h : Handler) : Int :=
  match h.stage with
  | .priced month item => if month = m then itemAmount item else 0
  | _ => 0

def pendingTotal (m : Period) (hs : List Handler) : Int := (hs.map (pendingAmount m)).sum

/-- Never more than is due for a month, and exactly that once an event closing
it has been processed. -/
def BilledOnce (s : OverageState) : Prop :=
  ∀ m, s.total m ≤ s.dueFor t m ∧
    ∀ e ∈ s.world.processedEvents, closes e.1 = m → s.total m = s.dueFor t m

/-- A delivery has read an amount to charge for the month. -/
def Claimed (s : OverageState) (m : Period) : Prop :=
  ∃ r ∈ s.reads, r.month = m ∧ r.amount ≠ 0

/-- A delivery of an event closing the month has read a counter. -/
def Closing (s : OverageState) (m : Period) : Prop :=
  ∃ r ∈ s.reads, r.closes = m

instance (s : OverageState) (m : Period) : Decidable (Claimed s m) :=
  inferInstanceAs (Decidable (∃ r ∈ s.reads, _))

instance (s : OverageState) (m : Period) : Decidable (Closing s m) :=
  inferInstanceAs (Decidable (∃ r ∈ s.reads, _))

/-- The condition on a step: a counter that calls for a charge is read once, by
an event that closes this very month; a counter that calls for none is read by
an event whose month is billed already; and once a month has been read or is
being closed, no increment makes more of it due. -/
def OverageOp.Orderly (s : OverageState) : OverageOp → Prop
  | .increment =>
      Claimed s s.period ∨ Closing s s.period →
        t.due (s.runs t s.period + 1) = s.dueFor t s.period
  | .read i =>
      match s.inFlight[i]? with
      | some ⟨eventId, .checked⟩ =>
          if s.dueFor t s.period = 0 then
            s.total (closes eventId) = s.dueFor t (closes eventId)
          else closes eventId = s.period ∧ ¬ Claimed s s.period
      | _ => True
  | _ => True

instance (s : OverageState) : (op : OverageOp) → Decidable (op.Orderly t closes s)
  | .increment => inferInstanceAs (Decidable (_ → _))
  | .read i =>
      match h : s.inFlight[i]? with
      | some ⟨eventId, .checked⟩ =>
          decidable_of_iff
            (if s.dueFor t s.period = 0 then
              s.total (closes eventId) = s.dueFor t (closes eventId)
            else closes eventId = s.period ∧ ¬ Claimed s s.period)
            (by rw [OverageOp.Orderly, h])
      | some ⟨_, .priced _ _⟩ => isTrue (by rw [OverageOp.Orderly, h]; trivial)
      | some ⟨_, .charged⟩ => isTrue (by rw [OverageOp.Orderly, h]; trivial)
      | none => isTrue (by rw [OverageOp.Orderly, h]; trivial)
  | .rollover | .receive _ | .charge _ | .finish _ => inferInstanceAs (Decidable True)

end Machine

section Terms
variable {t : OverageTerms}

def OverageTerms.CapNonneg (t : OverageTerms) : Prop := ∀ c ∈ t.settings.budgetCapCents, 0 ≤ c

instance : Decidable t.CapNonneg := inferInstanceAs (Decidable (∀ c ∈ t.settings.budgetCapCents, _))

theorem OverageTerms.Hold.congr {w w' : World} (h : t.Hold w)
    (hrows : w'.subscriptions = w.subscriptions) (htenants : w'.tenants = w.tenants)
    (hoverage : w'.overageSettings = w.overageSettings) : t.Hold w' := by
  refine ⟨?_, ?_, ?_⟩
  · rw [← h.tenant, tenantIdByCustomer, tenantIdByCustomer, World.rowOfCustomer,
      World.rowOfCustomer, hrows]
  · rw [← h.subscription]
    simp only [getSubscription, World.rowOfTenant, hrows, adminAssignedPlan, htenants]
  · rw [← h.settings, getOverageSettings, getOverageSettings, hoverage]

theorem OverageTerms.due_nonneg (hcap : t.CapNonneg) (runs : Nat) : 0 ≤ t.due runs := by
  rw [OverageTerms.due]
  cases hc : t.settings.budgetCapCents with
  | none => exact Int.natCast_nonneg _
  | some c => exact le_min (Int.natCast_nonneg _) (hcap c hc)

theorem itemAmount_overageCharge (hcap : t.CapNonneg) {w : World} (h : t.Hold w) (m : Period) :
    itemAmount (overageCharge {} m w t.cid) = t.due (getCount false w t.tid m) := by
  have htenant : truthy (tenantIdByCustomer false w t.cid) = some t.tid := by
    rw [h.tenant]
    exact truthy_eq_some.mpr ⟨rfl, t.tid_ne⟩
  have hfilter : (some t.settings).filter (·.enabled) = some t.settings := by
    simp [t.enabled]
  simp only [overageCharge, htenant, Option.bind_eq_bind, Option.bind_some, h.subscription,
    h.settings, overageItem, t.limited, hfilter, overageUnits]
  by_cases hunits : (getCount false w t.tid m - t.limit) / t.settings.unitSize = 0
  · rw [if_pos hunits, OverageTerms.due, hunits, Nat.zero_mul]
    cases hc : t.settings.budgetCapCents with
    | none => rfl
    | some c => exact (min_eq_left (hcap c hc)).symm
  · rw [if_neg hunits]
    rfl

end Terms

section Sums
variable {hs : List Handler} {h : Handler} {i : Nat} {m : Period}

theorem pendingTotal_cons : pendingTotal m (h :: hs) = pendingAmount m h + pendingTotal m hs :=
  List.sum_cons

theorem pendingTotal_pick (hpick : hs[i]? = some h) :
    pendingTotal m hs = pendingAmount m h + pendingTotal m (hs.eraseIdx i) := by
  obtain ⟨hi, rfl⟩ := List.getElem?_eq_some_iff.mp hpick
  rw [← pendingTotal_cons]
  exact ((List.getElem_cons_eraseIdx_perm hi).symm.map _).sum_eq

theorem mem_of_pick (hpick : hs[i]? = some h) : h ∈ hs := List.mem_of_getElem? hpick

theorem pendingTotal_nonneg (hnn : ∀ h ∈ hs, ∀ m, 0 ≤ pendingAmount m h) (m : Period) :
    0 ≤ pendingTotal m hs := by
  apply List.sum_nonneg
  intro a ha
  obtain ⟨h, hh, rfl⟩ := List.mem_map.mp ha
  exact hnn h hh m

theorem OverageState.total_nonneg {s : OverageState} (hnn : ∀ b ∈ s.bills, 0 ≤ b.2)
    (m : Period) : 0 ≤ s.total m := by
  apply List.sum_nonneg
  intro a ha
  obtain ⟨b, hb, rfl⟩ := List.mem_map.mp ha
  split
  · exact hnn b hb
  · exact le_refl 0

end Sums

theorem delivery_atomic (t : OverageTerms) (closes : String → Period) (environ : Environ)
    (d : Delivery) {s : OverageState} {eventId : String} (hfaults : d.faults = {})
    (hevent : d.event = invoiceCreated t eventId) (hcid : t.cid ≠ "")
    (hperiod : d.clock.period = s.period) (hidle : s.inFlight = []) :
    (exec (overageStep t closes) s [.receive eventId, .read 0, .charge 0, .finish 0]).world =
      (handleWebhookEvent environ d s.world).world := by
  have htruthy : truthy (some t.cid) = some t.cid := truthy_eq_some.mpr ⟨rfl, hcid⟩
  have hid : d.event.id = eventId := congrArg Event.id hevent
  cases hskip : isEventProcessed false s.world eventId with
  | true =>
      simp [overageStep, handleWebhookEvent, hskip, hidle, hfaults, hid]
  | false =>
      cases hcharge : overageCharge {} s.period s.world t.cid with
      | none =>
          simp [overageStep, handleWebhookEvent, hskip, hidle, hfaults, dispatchEvent,
            hevent, invoiceCreated, htruthy, reportOverageForCustomer, hperiod, hcharge]
      | some item =>
          simp [overageStep, handleWebhookEvent, hskip, hidle, hfaults, dispatchEvent,
            hevent, invoiceCreated, htruthy, reportOverageForCustomer, hperiod, hcharge,
            createInvoiceItem]

end Engramia.Billing
