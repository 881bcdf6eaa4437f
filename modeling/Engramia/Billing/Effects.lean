import Engramia.Billing.Committed

/-!
The effect every event calls for, and what a delivery must find, among its
faults and in the database, to bring it about. The two agree on every handler
that returns; one that raises leaves its event to be delivered again.
-/
namespace Engramia.Billing

open Engramia.Library

def Linked (rows : List SubscriptionRow) (tid cid : String) : Prop :=
  ∃ r ∈ rows, r.tenantId = tid ∧ r.stripeCustomerId = some cid

def CustomerLinked (rows : List SubscriptionRow) (cid : String) : Prop :=
  ∃ r ∈ rows, r.stripeCustomerId = some cid

/-- Some row shows every column of the upsert. -/
def Carries (rows : List SubscriptionRow) (p : UpsertParams) : Prop :=
  ∃ r ∈ rows, p.assign r = r

def CarriesData (environ : Environ) (rows : List SubscriptionRow) (data : SubscriptionData) :
    Prop :=
  ∃ p, upsertParams environ data = .ok p ∧ Carries rows p

/-- The effect an event calls for, read off the worlds before and after. -/
def EventBody.Effect (environ : Environ) (d : Delivery) (w w' : World) : EventBody → Prop
  | .checkoutSessionCompleted session =>
      session.mode = "subscription" →
        ∀ tid ∈ truthy session.clientReferenceId, ∀ cid ∈ truthy session.customer,
          Linked w'.subscriptions tid cid ∧
            ∀ sid ∈ truthy session.subscription,
              CarriesData environ w'.subscriptions (d.stripe sid)
  | .subscriptionCreated data | .subscriptionUpdated data =>
      CarriesData environ w'.subscriptions data
  | .subscriptionDeleted cid =>
      ∃ r ∈ w'.subscriptions, r.stripeCustomerId = some cid ∧ r.downgrade = r
  | .invoicePaymentFailed cid =>
      ∃ r ∈ w'.subscriptions, r.stripeCustomerId = some cid ∧ r.status = "past_due"
  | .invoicePaid cid =>
      ∃ r ∈ w'.subscriptions, r.stripeCustomerId = some cid ∧ r.status = "active"
  | .invoiceCreated customer =>
      -- the charge that is due is the one fault-free reads call for
      ∀ cid ∈ truthy customer, CustomerLinked w.subscriptions cid ∧
        w'.invoiceItems = w.invoiceItems ++ (overageCharge {} d.clock.period w cid).toList
  | .unhandled _ => True

def EffectApplied (environ : Environ) (d : Delivery) (w w' : World) : Prop :=
  d.event.body.Effect environ d w w'

/-- The upsert reaches a row, or raises before the event can be recorded. -/
def UpsertLands (environ : Environ) (f : Faults) (w : World) (data : SubscriptionData) : Prop :=
  match upsertParams environ data with
  | .error _ => True
  | .ok p =>
      Carries w.subscriptions p ∨
        ∃ tid ∈ resolveTenant f.tenantByCustomer w data,
          (w.execute f.upsert (.upsertSubscription tid p)).isSome

def LinkLands (environ : Environ) (d : Delivery) (w : World) (session : CheckoutSession) :
    Prop :=
  session.mode = "subscription" →
    ∀ tid ∈ truthy session.clientReferenceId, ∀ cid ∈ truthy session.customer,
      match w.execute d.faults.linkSession (.linkCustomer tid cid) with
      | none =>
          Linked w.subscriptions tid cid ∧
            ∀ sid ∈ truthy session.subscription,
              CarriesData environ w.subscriptions (d.stripe sid)
      | some w' =>
          ∀ sid ∈ truthy session.subscription,
            if d.faults.retrieveSubscription then
              CarriesData environ w'.subscriptions (d.stripe sid)
            else UpsertLands environ d.faults w' (d.stripe sid)

/-- The charge is created as due, or the Stripe call raises. -/
def ChargeLands (f : Faults) (period : Period) (w : World) (cid : String) : Prop :=
  (f.invoiceItem = .otherError ∧ overageCharge f period w cid ≠ none) ∨
    (CustomerLinked w.subscriptions cid ∧
      (if f.invoiceItem = .ok then overageCharge f period w cid else none) =
        overageCharge {} period w cid)

/-- What a delivery must find, among its faults and in the database, for the
effect of its event to be there when the handler returns. -/
def EventBody.Lands (environ : Environ) (d : Delivery) (w : World) : EventBody → Prop
  | .checkoutSessionCompleted session => LinkLands environ d w session
  | .subscriptionCreated data | .subscriptionUpdated data =>
      UpsertLands environ d.faults w data
  | .subscriptionDeleted cid =>
      ∃ r ∈ w.subscriptions, r.stripeCustomerId = some cid ∧
        (d.faults.downgrade = false ∨ r.downgrade = r)
  | .invoicePaymentFailed cid =>
      ∃ r ∈ w.subscriptions, r.stripeCustomerId = some cid ∧
        (d.faults.setStatus = false ∨ r.status = "past_due")
  | .invoicePaid cid =>
      ∃ r ∈ w.subscriptions, r.stripeCustomerId = some cid ∧
        (d.faults.setStatus = false ∨ r.status = "active")
  | .invoiceCreated customer =>
      ∀ cid ∈ truthy customer, ChargeLands d.faults d.clock.period w cid
  | .unhandled _ => True

section Decidable
variable (environ : Environ) (d : Delivery) (w w' : World) (rows : List SubscriptionRow)

instance (tid cid : String) : Decidable (Linked rows tid cid) :=
  inferInstanceAs (Decidable (∃ r ∈ rows, _))

instance (cid : String) : Decidable (CustomerLinked rows cid) :=
  inferInstanceAs (Decidable (∃ r ∈ rows, _))

instance (p : UpsertParams) : Decidable (Carries rows p) :=
  inferInstanceAs (Decidable (∃ r ∈ rows, _))

instance (data : SubscriptionData) : Decidable (CarriesData environ rows data) :=
  match h : upsertParams environ data with
  | .ok p =>
      decidable_of_iff (Carries rows p)
        ⟨fun hc => ⟨p, h, hc⟩, fun ⟨_, hp, hc⟩ => Except.ok.inj (h.symm.trans hp) ▸ hc⟩
  | .error _ => isFalse fun ⟨_, hp, _⟩ => nomatch h.symm.trans hp

instance : (body : EventBody) → Decidable (body.Effect environ d w w')
  | .checkoutSessionCompleted session =>
      inferInstanceAs (Decidable (session.mode = "subscription" →
        ∀ tid ∈ truthy session.clientReferenceId, ∀ cid ∈ truthy session.customer,
          Linked w'.subscriptions tid cid ∧ ∀ sid ∈ truthy session.subscription,
            CarriesData environ w'.subscriptions (d.stripe sid)))
  | .subscriptionCreated data | .subscriptionUpdated data =>
      inferInstanceAs (Decidable (CarriesData environ w'.subscriptions data))
  | .subscriptionDeleted _ | .invoicePaymentFailed _ | .invoicePaid _ =>
      inferInstanceAs (Decidable (∃ r ∈ w'.subscriptions, _ ∧ _))
  | .invoiceCreated customer =>
      inferInstanceAs (Decidable (∀ cid ∈ truthy customer, CustomerLinked w.subscriptions cid ∧
        w'.invoiceItems = w.invoiceItems ++ (overageCharge {} d.clock.period w cid).toList))
  | .unhandled _ => inferInstanceAs (Decidable True)

instance : Decidable (EffectApplied environ d w w') :=
  inferInstanceAs (Decidable (d.event.body.Effect environ d w w'))

end Decidable

section Effects
variable {environ : Environ} {w : World}

theorem carries_upsert {tid : String} {p : UpsertParams} (rows : List SubscriptionRow) :
    Carries ((Statement.upsertSubscription tid p).run rows) p := by
  rcases insertOnConflict_cases (onTenant tid) p.assign
      (p.assign (defaultRow tid (some p.cid))) rows with ⟨r, hr, hp, heq⟩ | ⟨_, heq⟩
  · rw [Statement.run, heq]
    exact ⟨p.assign r, mem_updateWhere_of_match hr hp, rfl⟩
  · rw [Statement.run, heq]
    exact ⟨_, List.mem_append_right _ (List.mem_singleton.mpr rfl), rfl⟩

theorem linked_link {tid cid : String} (rows : List SubscriptionRow) :
    Linked ((Statement.linkCustomer tid cid).run rows) tid cid := by
  rcases insertOnConflict_cases (onTenant tid) (.setCustomer cid)
      ((defaultRow tid (some cid)).setStatus "incomplete") rows with ⟨r, hr, hp, heq⟩ | ⟨_, heq⟩
  · rw [Statement.run, heq]
    exact ⟨_, mem_updateWhere_of_match hr hp, onTenant_iff.mp hp, rfl⟩
  · rw [Statement.run, heq]
    exact ⟨_, List.mem_append_right _ (List.mem_singleton.mpr rfl), rfl, rfl⟩

theorem Linked.upsert {tid cid tid' : String} {p : UpsertParams}
    {rows : List SubscriptionRow} (h : Linked rows tid cid) :
    Linked ((Statement.upsertSubscription tid' p).run rows) tid cid := by
  obtain ⟨r, hr, htid, hcid⟩ := h
  rcases insertOnConflict_cases (onTenant tid') p.assign
      (p.assign (defaultRow tid' (some p.cid))) rows with ⟨_, _, _, heq⟩ | ⟨_, heq⟩
  · rw [Statement.run, heq]
    refine ⟨_, mem_updateWhere.mpr ⟨r, hr, rfl⟩, ?_, ?_⟩
    · split
      · exact htid
      · exact htid
    · split
      · exact hcid
      · exact hcid
  · rw [Statement.run, heq]
    exact ⟨r, List.mem_append_left _ hr, htid, hcid⟩

theorem upsert_effect_iff (f : Faults) (data : SubscriptionData)
    (hraised : (upsertSubscription environ f w data).raised = none) :
    CarriesData environ (upsertSubscription environ f w data).world.subscriptions data ↔
      UpsertLands environ f w data := by
  rw [upsertSubscription] at hraised ⊢
  rw [CarriesData, UpsertLands]
  cases hparams : upsertParams environ data with
  | error e =>
      simp only [hparams] at hraised
      cases hraised
  | ok p =>
      have hcarries (rows : List SubscriptionRow) :
          (∃ p', Except.ok (ε := PyError) p = .ok p' ∧ Carries rows p') ↔ Carries rows p := by
        constructor
        · rintro ⟨_, heq, h⟩
          exact Except.ok.inj heq ▸ h
        · exact fun h => ⟨p, rfl, h⟩
      simp only [hcarries]
      cases htid : resolveTenant f.tenantByCustomer w data with
      | none => simp
      | some tid =>
          cases hexec : w.execute f.upsert (.upsertSubscription tid p) with
          | none => simp [hexec]
          | some w' =>
              obtain ⟨-, hrows, -⟩ := World.execute_eq_some hexec
              simp only [hexec, Option.getD_some, hrows, carries_upsert, true_iff]
              exact .inr ⟨tid, rfl, by simp [hexec]⟩

theorem linked_upsertSubscription {tid cid : String} (f : Faults) (data : SubscriptionData)
    (h : Linked w.subscriptions tid cid) :
    Linked (upsertSubscription environ f w data).world.subscriptions tid cid := by
  have hrows := (wrote_upsertSubscription environ f w data).rows
  rcases upsertCommits_cases environ f w data with hcommits | ⟨tid', p, hcommits⟩
  · rw [hrows, hcommits]
    exact h
  · rw [hrows, hcommits]
    exact h.upsert

theorem link_effect_iff (d : Delivery) (session : CheckoutSession)
    (hbody : d.event.body = .checkoutSessionCompleted session)
    (hraised : (linkCheckoutSession environ d w session).raised = none) :
    EffectApplied environ d w (linkCheckoutSession environ d w session).world ↔
      LinkLands environ d w session := by
  rw [EffectApplied]
  rw [hbody]
  rw [EventBody.Effect, LinkLands]
  rw [linkCheckoutSession] at hraised ⊢
  refine imp_congr_right fun hmode => ?_
  refine forall₂_congr fun tid htid => forall₂_congr fun cid hcid => ?_
  rw [Option.mem_def] at htid hcid
  simp only [hmode, ne_eq, not_true_eq_false, if_false, htid, hcid] at hraised ⊢
  cases hlink : w.execute d.faults.linkSession (.linkCustomer tid cid) with
  | none => simp only
  | some w' =>
      obtain ⟨-, hrows, -⟩ := World.execute_eq_some hlink
      have hlinked : Linked w'.subscriptions tid cid := hrows ▸ linked_link w.subscriptions
      simp only [hlink] at hraised ⊢
      cases hsid : truthy session.subscription with
      | none => simp [hlinked]
      | some sid =>
          simp only [hsid] at hraised ⊢
          simp only [Option.mem_def, Option.some.injEq, forall_eq']
          by_cases hf : d.faults.retrieveSubscription = true
          · simp only [hf, if_true, hlinked, true_and]
          · simp only [hf, Bool.false_eq_true, if_false] at hraised ⊢
            rw [upsert_effect_iff d.faults (d.stripe sid) hraised, and_iff_right_iff_imp]
            intro _
            exact linked_upsertSubscription d.faults (d.stripe sid) hlinked

theorem charge_effect_iff (f : Faults) (period : Period) (cid : String)
    (hraised : (reportOverageForCustomer f period w cid).raised = none) :
    (CustomerLinked w.subscriptions cid ∧
      (reportOverageForCustomer f period w cid).world.invoiceItems =
        w.invoiceItems ++ (overageCharge {} period w cid).toList) ↔
      ChargeLands f period w cid := by
  have htoList {a b : Option InvoiceItem} :
      w.invoiceItems ++ a.toList = w.invoiceItems ++ b.toList ↔ a = b := by
    rw [List.append_cancel_left_eq]
    cases a <;> cases b <;> simp
  have hitems : (reportOverageForCustomer f period w cid).world.invoiceItems =
      w.invoiceItems ++
        (if f.invoiceItem = .ok then overageCharge f period w cid else none).toList := by
    rw [reportOverageForCustomer]
    cases overageCharge f period w cid with
    | none => simp
    | some item => cases f.invoiceItem <;> simp [createInvoiceItem]
  rw [hitems, htoList]
  have hnoRaise : ¬ (f.invoiceItem = .otherError ∧ overageCharge f period w cid ≠ none) := by
    rintro ⟨hcall, hcharge⟩
    obtain ⟨item, hitem⟩ := Option.ne_none_iff_exists'.mp hcharge
    simp [reportOverageForCustomer, createInvoiceItem, hitem, hcall] at hraised
  rw [ChargeLands, or_iff_right hnoRaise]

/-- A downgrade or status update leaves its mark on the customer's row. -/
theorem customer_effect_iff {fails : Bool} {st : Statement} {cid : String}
    {f : SubscriptionRow → SubscriptionRow} {mark : SubscriptionRow → Prop}
    (hrun : st.run w.subscriptions = updateWhere (onCustomer cid) f w.subscriptions)
    (hcommit : (w.execute fails st).isSome ↔ fails = false)
    (hcid : ∀ r, (f r).stripeCustomerId = r.stripeCustomerId) (hmark : ∀ r, mark (f r)) :
    (∃ r ∈ ((w.execute fails st).getD w).subscriptions,
      r.stripeCustomerId = some cid ∧ mark r) ↔
    ∃ r ∈ w.subscriptions, r.stripeCustomerId = some cid ∧ (fails = false ∨ mark r) := by
  cases hexec : w.execute fails st with
  | none =>
      have hfails : fails ≠ false := fun hf => by simpa [hexec] using hcommit.mpr hf
      simp [hfails]
  | some w' =>
      obtain ⟨hfails, hrows, -⟩ := World.execute_eq_some hexec
      rw [Option.getD_some, hrows, hrun]
      constructor
      · rintro ⟨r, hr, hc, -⟩
        rcases mem_updateWhere_cases hr with ⟨r₀, hr₀, hp, rfl⟩ | ⟨hr, -⟩
        · exact ⟨r₀, hr₀, onCustomer_iff.mp hp, .inl hfails⟩
        · exact ⟨r, hr, hc, .inl hfails⟩
      · rintro ⟨r, hr, hc, -⟩
        exact ⟨f r, mem_updateWhere_of_match hr (onCustomer_iff.mpr hc),
          (hcid r).trans hc, hmark r⟩

theorem dispatch_effect_iff (d : Delivery)
    (hraised : (dispatchEvent environ d w).raised = none) :
    EffectApplied environ d w (dispatchEvent environ d w).world ↔
      d.event.body.Lands environ d w := by
  rw [dispatchEvent] at hraised ⊢
  cases hbody : d.event.body with
  | checkoutSessionCompleted session =>
      simp only [hbody] at hraised ⊢
      exact link_effect_iff d session hbody hraised
  | subscriptionCreated data | subscriptionUpdated data =>
      simp only [hbody] at hraised ⊢
      rw [EffectApplied, hbody]
      exact upsert_effect_iff d.faults data hraised
  | subscriptionDeleted cid =>
      rw [EffectApplied, hbody]
      exact customer_effect_iff rfl World.execute_downgrade_isSome (fun _ => rfl) fun _ => rfl
  | invoicePaymentFailed cid =>
      rw [EffectApplied, hbody]
      exact customer_effect_iff rfl World.execute_setStatus_isSome
        (fun r => (statusUpdate_keys _ _ r).2.1) fun _ => rfl
  | invoicePaid cid =>
      rw [EffectApplied, hbody]
      exact customer_effect_iff rfl World.execute_setStatus_isSome
        (fun r => (statusUpdate_keys _ _ r).2.1) fun _ => rfl
  | invoiceCreated customer =>
      simp only [hbody] at hraised ⊢
      rw [EffectApplied, hbody]
      rw [EventBody.Effect, EventBody.Lands]
      cases hcid : truthy customer with
      | none => simp
      | some cid =>
          simp only [hcid, Option.mem_def, Option.some.injEq, forall_eq'] at hraised ⊢
          exact charge_effect_iff d.faults d.clock.period cid hraised
  | unhandled type =>
      rw [EffectApplied, hbody]
      exact Iff.rfl

theorem upsert_raised_lands {f : Faults} {data : SubscriptionData}
    (hraised : (upsertSubscription environ f w data).raised ≠ none) :
    UpsertLands environ f w data := by
  rw [upsertSubscription] at hraised
  rw [UpsertLands]
  cases hparams : upsertParams environ data with
  | error e => trivial
  | ok p =>
      rw [hparams] at hraised
      cases hres : resolveTenant f.tenantByCustomer w data <;> simp [hres] at hraised

/-- A handler that raises asks nothing: its event stays unrecorded. -/
theorem dispatch_raised_lands {d : Delivery}
    (hraised : (dispatchEvent environ d w).raised ≠ none) :
    d.event.body.Lands environ d w := by
  rw [dispatchEvent] at hraised
  cases hbody : d.event.body with
  | checkoutSessionCompleted session =>
      simp only [hbody] at hraised
      rw [linkCheckoutSession] at hraised
      intro hmode tid htid cid hcid
      rw [Option.mem_def] at htid hcid
      simp only [hmode, ne_eq, not_true_eq_false, if_false, htid, hcid] at hraised
      cases hlink : w.execute d.faults.linkSession (.linkCustomer tid cid) with
      | none => simp [hlink] at hraised
      | some w' =>
          simp only [hlink] at hraised ⊢
          intro sid hsid
          rw [Option.mem_def] at hsid
          simp only [hsid] at hraised
          by_cases hf : d.faults.retrieveSubscription = true
          · simp [hf] at hraised
          · simp only [hf, Bool.false_eq_true, if_false] at hraised ⊢
            exact upsert_raised_lands hraised
  | subscriptionCreated data | subscriptionUpdated data =>
      simp only [hbody] at hraised
      exact upsert_raised_lands hraised
  | subscriptionDeleted cid | invoicePaymentFailed cid | invoicePaid cid | unhandled type =>
      simp [hbody, downgradeToSandbox, setStatusByCustomer] at hraised
  | invoiceCreated customer =>
      simp only [hbody] at hraised
      intro cid hcid
      rw [Option.mem_def] at hcid
      simp only [hcid, reportOverageForCustomer] at hraised
      cases hcharge : overageCharge d.faults d.clock.period w cid with
      | none => simp [hcharge] at hraised
      | some item =>
          refine .inl ⟨?_, by simp [hcharge]⟩
          cases hcall : d.faults.invoiceItem <;> simp [hcharge, createInvoiceItem, hcall] at hraised
          rfl

/-- The effect is read off the rows and the invoice items alone. -/
theorem effectApplied_congr {d : Delivery} {w₁ w₂ : World}
    (hrows : w₁.subscriptions = w₂.subscriptions) (hitems : w₁.invoiceItems = w₂.invoiceItems) :
    EffectApplied environ d w w₁ ↔ EffectApplied environ d w w₂ := by
  simp only [EffectApplied, EventBody.Effect.eq_def, hrows, hitems]

end Effects

end Engramia.Billing
