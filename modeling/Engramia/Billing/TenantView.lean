import Engramia.Billing.Committed

/-!
Statements about one tenant, seen from that tenant's row. The other rows stay
as they are and decide only whether the statement breaks a constraint, which
is therefore the same question throughout a run.
-/
namespace Engramia.Billing

open Engramia.Library

/-- The other tenants of `w'` are those of `w`. -/
structure SameBeyond (tid : String) (w w' : World) : Prop where
  tenants : w'.tenants = w.tenants
  rows : ∀ t, t ≠ tid → w'.rowOfTenant t = w.rowOfTenant t

/-- The customer belongs to no other tenant. -/
def OwnCustomer (tid cid : String) (w : World) : Prop :=
  ∀ r ∈ w.subscriptions, r.stripeCustomerId = some cid → r.tenantId = tid

/-- The subscription is on no other tenant's row. -/
def OwnSubscription (tid sid : String) (w : World) : Prop :=
  ∀ r ∈ w.subscriptions, r.stripeSubscriptionId = some sid → r.tenantId = tid

instance (tid cid : String) (w : World) : Decidable (OwnCustomer tid cid w) :=
  inferInstanceAs (Decidable (∀ r ∈ w.subscriptions, _))

instance (tid sid : String) (w : World) : Decidable (OwnSubscription tid sid w) :=
  inferInstanceAs (Decidable (∀ r ∈ w.subscriptions, _))

def linkRow (tid cid : String) (x : Option SubscriptionRow) : SubscriptionRow :=
  (x.map (.setCustomer cid)).getD ((defaultRow tid (some cid)).setStatus "incomplete")

def upsertRow (tid : String) (p : UpsertParams) (x : Option SubscriptionRow) :
    SubscriptionRow :=
  (x.map p.assign).getD (p.assign (defaultRow tid (some p.cid)))

theorem SameBeyond.refl (tid : String) (w : World) : SameBeyond tid w w := ⟨rfl, fun _ _ => rfl⟩

theorem SameBeyond.trans {tid : String} {w w' w'' : World} (h : SameBeyond tid w w')
    (h' : SameBeyond tid w' w'') : SameBeyond tid w w'' :=
  ⟨h'.tenants.trans h.tenants, fun t ht => (h'.rows t ht).trans (h.rows t ht)⟩

theorem SameBeyond.mem {tid : String} {w w' : World} (h : SameBeyond tid w w')
    {r : SubscriptionRow} (hr : r ∈ w'.subscriptions) (htid : r.tenantId ≠ tid) :
    r ∈ w.subscriptions := by
  have hrow := h.rows r.tenantId htid
  rw [World.rowOfTenant_eq_some.mpr ⟨hr, rfl⟩] at hrow
  exact (World.rowOfTenant_eq_some.mp hrow.symm).1

theorem SameBeyond.symm {tid : String} {w w' : World} (h : SameBeyond tid w w') :
    SameBeyond tid w' w :=
  ⟨h.tenants.symm, fun t ht => (h.rows t ht).symm⟩

theorem OwnCustomer.congr {tid cid : String} {w w' : World} (h : OwnCustomer tid cid w)
    (hsame : SameBeyond tid w w') : OwnCustomer tid cid w' := by
  intro r hr hcid
  by_contra htid
  exact htid (h r (hsame.mem hr htid) hcid)

theorem ownSubscription_congr {tid sid : String} {w w' : World} (hsame : SameBeyond tid w w') :
    OwnSubscription tid sid w' ↔ OwnSubscription tid sid w := by
  have hone {v v' : World} (hvv : SameBeyond tid v v') (h : OwnSubscription tid sid v) :
      OwnSubscription tid sid v' := by
    intro r hr hsid
    by_contra htid
    exact htid (h r (hvv.mem hr htid) hsid)
  exact ⟨hone hsame.symm, hone hsame⟩

section Constraints
variable {w : World} {tid : String} {f : SubscriptionRow → SubscriptionRow}
  {new : SubscriptionRow}

/-- The row an insert with a conflict clause on the tenant leaves behind. -/
def insertedRow (w : World) (tid : String) (f : SubscriptionRow → SubscriptionRow)
    (new : SubscriptionRow) : SubscriptionRow :=
  ((w.rowOfTenant tid).map f).getD new

/-- A unique column survives the insert when no other tenant's row holds the
value the tenant's row now has. -/
theorem uniqueOn_insertOnTenant_iff {key : SubscriptionRow → Option String}
    (hu : UniqueOn key w.subscriptions) :
    UniqueOn key (insertOnConflict (onTenant tid) f new w.subscriptions) ↔
      ∀ r ∈ w.subscriptions, r.tenantId ≠ tid → key r = key (insertedRow w tid f new) →
        key r = none := by
  have hone : w.subscriptions.Pairwise fun a b =>
      ¬ (onTenant tid a = true ∧ onTenant tid b = true) := by
    apply List.Pairwise.imp _ w.valid.tenantUnique
    rintro a b hab ⟨ha, hb⟩
    have heq : some a.tenantId = some b.tenantId := by
      rw [onTenant_iff.mp ha, onTenant_iff.mp hb]
    cases hab heq
  rcases insertOnConflict_cases (onTenant tid) f new w.subscriptions with
    ⟨r₀, hr₀, hp₀, heq⟩ | ⟨hno, heq⟩
  · have hrow : w.rowOfTenant tid = some r₀ :=
      World.rowOfTenant_eq_some.mpr ⟨hr₀, onTenant_iff.mp hp₀⟩
    rw [heq, uniqueOn_updateWhere_iff hu hone hr₀ hp₀, insertedRow, hrow]
    simp only [onTenant_eq_false, Option.map_some, Option.getD_some]
  · have hrow : w.rowOfTenant tid = none :=
      World.rowOfTenant_eq_none.mpr fun r hr => onTenant_eq_false.mp (hno r hr)
    rw [heq, uniqueOn_append_singleton, insertedRow, hrow]
    simp only [Option.map_none, Option.getD_none, hu, true_and]
    exact forall₂_congr fun r hr => by simp [onTenant_eq_false.mp (hno r hr)]

/-- A column the update leaves alone conflicts at most through the new row. -/
theorem key_insertedRow {key : SubscriptionRow → Option String}
    (hu : UniqueOn key w.subscriptions) (hkey : ∀ r, key (f r) = key r)
    {r : SubscriptionRow} (hr : r ∈ w.subscriptions) (htid : r.tenantId ≠ tid)
    (hnew : key r = key new → key r = none) (heq : key r = key (insertedRow w tid f new)) :
    key r = none := by
  rw [insertedRow] at heq
  cases hrow : w.rowOfTenant tid with
  | none =>
      rw [hrow] at heq
      exact hnew heq
  | some r₀ =>
      obtain ⟨hr₀, htid₀⟩ := World.rowOfTenant_eq_some.mp hrow
      rw [hrow, Option.map_some, Option.getD_some, hkey] at heq
      by_contra hsome
      obtain ⟨v, hv⟩ := Option.ne_none_iff_exists'.mp hsome
      have hsame := hu.eq_of_key hr hr₀ hv (heq.symm.trans hv)
      exact htid (hsame ▸ htid₀)

theorem valid_insertOnTenant_iff (hf : ∀ r, (f r).tenantId = r.tenantId)
    (hnew : new.tenantId = tid) :
    SubscriptionsValid (insertOnConflict (onTenant tid) f new w.subscriptions) ↔
      (∀ r ∈ w.subscriptions, r.tenantId ≠ tid →
        r.stripeCustomerId = (insertedRow w tid f new).stripeCustomerId →
          r.stripeCustomerId = none) ∧
      (∀ r ∈ w.subscriptions, r.tenantId ≠ tid →
        r.stripeSubscriptionId = (insertedRow w tid f new).stripeSubscriptionId →
          r.stripeSubscriptionId = none) := by
  have htenant : (insertedRow w tid f new).tenantId = tid := by
    rw [insertedRow]
    cases hrow : w.rowOfTenant tid with
    | none => exact hnew
    | some r => exact (hf r).trans (World.rowOfTenant_eq_some.mp hrow).2
  constructor
  · intro h
    exact ⟨(uniqueOn_insertOnTenant_iff w.valid.customerUnique).mp h.customerUnique,
      (uniqueOn_insertOnTenant_iff w.valid.subscriptionUnique).mp h.subscriptionUnique⟩
  · rintro ⟨hcustomer, hsubscription⟩
    refine ⟨?_, (uniqueOn_insertOnTenant_iff w.valid.customerUnique).mpr hcustomer,
      (uniqueOn_insertOnTenant_iff w.valid.subscriptionUnique).mpr hsubscription⟩
    have hkey (r : SubscriptionRow) (htid : r.tenantId ≠ tid) :
        some r.tenantId ≠ some (insertedRow w tid f new).tenantId := by
      rw [htenant]
      exact fun heq => htid (Option.some.inj heq)
    apply (uniqueOn_insertOnTenant_iff w.valid.tenantUnique).mpr
    exact fun r _ htid heq => absurd heq (hkey r htid)

end Constraints

section Views
variable {w : World} {tid cid : String}

theorem commit_insertOnTenant {w' : World} {f : SubscriptionRow → SubscriptionRow}
    {new : SubscriptionRow} (hf : ∀ r, (f r).tenantId = r.tenantId) (hnew : new.tenantId = tid)
    (hrows : w'.subscriptions = insertOnConflict (onTenant tid) f new w.subscriptions)
    (htenants : w'.tenants = w.tenants) :
    w'.rowOfTenant tid = some (insertedRow w tid f new) ∧ SameBeyond tid w w' := by
  constructor
  · rw [World.rowOfTenant, hrows, find?_insertOnTenant hf hnew, if_pos rfl]
    rfl
  · refine ⟨htenants, fun t ht => ?_⟩
    rw [World.rowOfTenant, hrows, find?_insertOnTenant hf hnew, if_neg ht]
    rfl

theorem commit_updateOnCustomer {w' : World} {f : SubscriptionRow → SubscriptionRow}
    (hown : OwnCustomer tid cid w) (hf : ∀ r, (f r).tenantId = r.tenantId)
    (hrows : w'.subscriptions = updateWhere (onCustomer cid) f w.subscriptions)
    (htenants : w'.tenants = w.tenants) :
    w'.rowOfTenant tid = (w.rowOfTenant tid).map (fun r => if onCustomer cid r then f r else r) ∧
      SameBeyond tid w w' := by
  constructor
  · rw [World.rowOfTenant, hrows, find?_updateOnTenant hf]
    rfl
  · refine ⟨htenants, fun t ht => ?_⟩
    rw [World.rowOfTenant, hrows, find?_updateOnTenant hf]
    cases hrow : w.rowOfTenant t with
    | none =>
        rw [World.rowOfTenant] at hrow
        rw [hrow]
        rfl
    | some r =>
        obtain ⟨hr, htid⟩ := World.rowOfTenant_eq_some.mp hrow
        have hnot : ¬ onCustomer cid r = true := fun hc =>
          ht (htid.symm.trans (hown r hr (onCustomer_iff.mp hc)))
        rw [World.rowOfTenant] at hrow
        rw [hrow, Option.map_some, if_neg hnot]

/-- A downgrade or status update of the customer, seen from the tenant's row. -/
theorem execute_customer_view {fails : Bool} {st : Statement}
    {f : SubscriptionRow → SubscriptionRow} (hown : OwnCustomer tid cid w)
    (hrun : st.run w.subscriptions = updateWhere (onCustomer cid) f w.subscriptions)
    (hcommit : (w.execute fails st).isSome ↔ fails = false)
    (hf : ∀ r, (f r).tenantId = r.tenantId) :
    ((w.execute fails st).getD w).rowOfTenant tid =
        (if fails = false then
          (w.rowOfTenant tid).map fun r => if onCustomer cid r then f r else r
        else w.rowOfTenant tid) ∧
      SameBeyond tid w ((w.execute fails st).getD w) := by
  cases hexec : w.execute fails st with
  | none =>
      have hfails : fails ≠ false := fun hf => by simpa [hexec] using hcommit.mpr hf
      rw [if_neg hfails]
      exact ⟨rfl, SameBeyond.refl tid w⟩
  | some w' =>
      obtain ⟨hfails, hrows, htenants, -⟩ := World.execute_eq_some hexec
      rw [if_pos hfails]
      exact commit_updateOnCustomer hown hf (hrows.trans hrun) htenants

theorem execute_downgrade_view (fails : Bool) (hown : OwnCustomer tid cid w) :
    ((w.execute fails (.downgradeToSandbox cid)).getD w).rowOfTenant tid =
        (if fails = false then
          (w.rowOfTenant tid).map fun r => if onCustomer cid r then r.downgrade else r
        else w.rowOfTenant tid) ∧
      SameBeyond tid w ((w.execute fails (.downgradeToSandbox cid)).getD w) :=
  execute_customer_view hown rfl World.execute_downgrade_isSome fun _ => rfl

theorem execute_setStatus_view (fails : Bool) (status : String) (now : Int)
    (hown : OwnCustomer tid cid w) :
    ((w.execute fails (.setStatusByCustomer cid status now)).getD w).rowOfTenant tid =
        (if fails = false then
          (w.rowOfTenant tid).map fun r =>
            if onCustomer cid r then statusUpdate status now r else r
        else w.rowOfTenant tid) ∧
      SameBeyond tid w ((w.execute fails (.setStatusByCustomer cid status now)).getD w) :=
  execute_customer_view hown rfl World.execute_setStatus_isSome
    fun r => (statusUpdate_keys status now r).1

theorem execute_link_isSome (hown : OwnCustomer tid cid w) :
    (w.execute false (.linkCustomer tid cid)).isSome := by
  have hf (r : SubscriptionRow) : (r.setCustomer cid).tenantId = r.tenantId := rfl
  have hnew : ((defaultRow tid (some cid)).setStatus "incomplete").tenantId = tid := rfl
  rw [World.execute_isSome_iff]
  simp only [Statement.run, true_and]
  rw [valid_insertOnTenant_iff hf hnew]
  constructor
  · intro r hr htid hcid
    have hcustomer : (insertedRow w tid (.setCustomer cid)
        ((defaultRow tid (some cid)).setStatus "incomplete")).stripeCustomerId = some cid := by
      rw [insertedRow]
      cases w.rowOfTenant tid <;> rfl
    exact absurd (hown r hr (hcid.trans hcustomer)) htid
  · have hkey (r : SubscriptionRow) :
        (r.setCustomer cid).stripeSubscriptionId = r.stripeSubscriptionId := rfl
    intro r hr htid hsid
    exact key_insertedRow w.valid.subscriptionUnique hkey hr htid (fun h => h) hsid

theorem execute_link_view {w' : World} (h : w.execute false (.linkCustomer tid cid) = some w') :
    w'.rowOfTenant tid = some (linkRow tid cid (w.rowOfTenant tid)) ∧ SameBeyond tid w w' := by
  obtain ⟨-, hrows, htenants, -⟩ := World.execute_eq_some h
  exact commit_insertOnTenant (fun _ => rfl) rfl hrows htenants

theorem execute_upsert_isSome_iff {p : UpsertParams} (hown : OwnCustomer tid p.cid w) :
    (w.execute false (.upsertSubscription tid p)).isSome ↔ OwnSubscription tid p.sid w := by
  have hf (r : SubscriptionRow) : (p.assign r).tenantId = r.tenantId := rfl
  have hnew : (p.assign (defaultRow tid (some p.cid))).tenantId = tid := rfl
  rw [World.execute_isSome_iff]
  simp only [Statement.run, true_and]
  rw [valid_insertOnTenant_iff hf hnew]
  have hsid : (insertedRow w tid p.assign
      (p.assign (defaultRow tid (some p.cid)))).stripeSubscriptionId = some p.sid := by
    rw [insertedRow]
    cases w.rowOfTenant tid <;> rfl
  rw [hsid]
  constructor
  · rintro ⟨-, hsubscription⟩ r hr hrsid
    by_contra htid
    have hnone := hsubscription r hr htid hrsid
    rw [hrsid] at hnone
    cases hnone
  · intro hsubscription
    refine ⟨?_, fun r hr htid hrsid => absurd (hsubscription r hr hrsid) htid⟩
    have hkey (r : SubscriptionRow) : (p.assign r).stripeCustomerId = r.stripeCustomerId := rfl
    intro r hr htid hcid
    refine key_insertedRow w.valid.customerUnique hkey hr htid ?_ hcid
    exact fun hnew => absurd (hown r hr hnew) htid

/-- The upsert writes the tenant's row unless the subscription is elsewhere. -/
theorem execute_upsert_view {p : UpsertParams} (hown : OwnCustomer tid p.cid w) :
    let w' := (w.execute false (.upsertSubscription tid p)).getD w
    w'.rowOfTenant tid =
        (if OwnSubscription tid p.sid w then some (upsertRow tid p (w.rowOfTenant tid))
        else w.rowOfTenant tid) ∧
      SameBeyond tid w w' := by
  by_cases hsub : OwnSubscription tid p.sid w
  · obtain ⟨w', hw'⟩ := Option.isSome_iff_exists.mp ((execute_upsert_isSome_iff hown).mpr hsub)
    obtain ⟨-, hrows, htenants, -⟩ := World.execute_eq_some hw'
    simp only [hw', Option.getD_some, if_pos hsub]
    exact commit_insertOnTenant (fun _ => rfl) rfl hrows htenants
  · have hnone : w.execute false (.upsertSubscription tid p) = none := by
      rw [← Option.not_isSome_iff_eq_none, execute_upsert_isSome_iff hown]
      exact hsub
    simp only [hnone, Option.getD_none, if_neg hsub]
    exact ⟨trivial, SameBeyond.refl tid w⟩

end Views

theorem upsertParams_ids {environ : Environ} {data : SubscriptionData} {p : UpsertParams}
    (h : upsertParams environ data = .ok p) : p.cid = data.customer ∧ p.sid = data.id := by
  rw [upsertParams] at h
  split at h
  · cases h
  · split at h
    · cases h
    · cases h
      exact ⟨rfl, rfl⟩

/-- How an upsert finds the tenant: by the linked row, unless that lookup
fails, or else by the metadata. -/
def Resolves (lookupFails : Bool) (tid : String) (data : SubscriptionData) (linked : Bool) :
    Prop :=
  (lookupFails = false ∧ tid ≠ "" ∧ linked = true) ∨ truthy data.metadata.tenantId ≠ none

instance (lookupFails : Bool) (tid : String) (data : SubscriptionData) (linked : Bool) :
    Decidable (Resolves lookupFails tid data linked) :=
  inferInstanceAs (Decidable (_ ∨ _))

section Resolve
variable {w : World} {tid cid : String}

theorem tenantIdByCustomer_own (hown : OwnCustomer tid cid w) :
    tenantIdByCustomer false w cid =
      if (w.rowOfTenant tid).any (onCustomer cid) then some tid else none := by
  rw [tenantIdByCustomer, if_neg Bool.false_ne_true]
  cases hcustomer : w.rowOfCustomer cid with
  | some r =>
      obtain ⟨hr, hcid⟩ := World.rowOfCustomer_eq_some.mp hcustomer
      have htid := hown r hr hcid
      rw [World.rowOfTenant_eq_some.mpr ⟨hr, htid⟩]
      simp [onCustomer_iff, hcid, htid]
  | none =>
      cases hrow : w.rowOfTenant tid with
      | none => rfl
      | some r =>
          obtain ⟨hr, -⟩ := World.rowOfTenant_eq_some.mp hrow
          have hnot := World.rowOfCustomer_eq_none.mp hcustomer r hr
          simp [onCustomer_iff, hnot]

theorem resolveTenant_own {fails : Bool} {data : SubscriptionData}
    (hown : OwnCustomer tid data.customer w)
    (hmeta : ∀ t ∈ truthy data.metadata.tenantId, t = tid) :
    resolveTenant fails w data =
      if Resolves fails tid data ((w.rowOfTenant tid).any (onCustomer data.customer)) then
        some tid
      else none := by
  have hmetaTenant : truthy data.metadata.tenantId =
      if truthy data.metadata.tenantId ≠ none then some tid else none := by
    cases hm : truthy data.metadata.tenantId with
    | none => rfl
    | some t => rw [if_pos (by simp), hmeta t hm]
  have hnone : truthy (none : Option String) = none := rfl
  rw [resolveTenant]
  by_cases hlookup : fails = false ∧ tid ≠ "" ∧
      (w.rowOfTenant tid).any (onCustomer data.customer) = true
  · obtain ⟨rfl, hne, hlinked⟩ := hlookup
    have htruthy : truthy (some tid) = some tid := truthy_eq_some.mpr ⟨rfl, hne⟩
    rw [tenantIdByCustomer_own hown, if_pos hlinked, htruthy, if_pos (.inl ⟨rfl, hne, hlinked⟩)]
  · have hlost : truthy (tenantIdByCustomer fails w data.customer) = none := by
      cases fails with
      | true => rfl
      | false =>
          rw [tenantIdByCustomer_own hown]
          split
          · rename_i hlinked
            have hempty : tid = "" := by
              by_contra hne
              exact hlookup ⟨rfl, hne, hlinked⟩
            rw [hempty]
            rfl
          · exact hnone
    rw [hlost]
    dsimp only
    rw [hmetaTenant]
    simp only [Resolves, hlookup, false_or]

theorem upsertSubscription_view (environ : Environ) (f : Faults) {data : SubscriptionData}
    (hown : OwnCustomer tid data.customer w)
    (hmeta : ∀ t ∈ truthy data.metadata.tenantId, t = tid) :
    (upsertSubscription environ f w data).world.rowOfTenant tid =
        (match upsertParams environ data with
        | .ok p =>
            if Resolves f.tenantByCustomer tid data
                ((w.rowOfTenant tid).any (onCustomer data.customer)) ∧
                f.upsert = false ∧ OwnSubscription tid data.id w then
              some (upsertRow tid p (w.rowOfTenant tid))
            else w.rowOfTenant tid
        | .error _ => w.rowOfTenant tid) ∧
      SameBeyond tid w (upsertSubscription environ f w data).world := by
  rw [upsertSubscription]
  cases hparams : upsertParams environ data with
  | error e => exact ⟨rfl, SameBeyond.refl tid w⟩
  | ok p =>
      obtain ⟨hcid, hsid⟩ := upsertParams_ids hparams
      simp only [resolveTenant_own hown hmeta]
      by_cases hres : Resolves f.tenantByCustomer tid data
          ((w.rowOfTenant tid).any (onCustomer data.customer))
      · simp only [hres, if_true, true_and]
        cases hfails : f.upsert with
        | true => exact ⟨rfl, SameBeyond.refl tid w⟩
        | false =>
            rw [← hcid] at hown
            have hview := execute_upsert_view hown
            rw [hsid] at hview
            simpa only [true_and] using hview
      · simp only [hres, if_false, false_and]
        exact ⟨trivial, SameBeyond.refl tid w⟩

theorem deliver_view {environ : Environ} {d : Delivery} {w' : World} {x : Option SubscriptionRow}
    (hskip : isEventProcessed d.faults.isEventProcessed w d.event.id = false)
    (hrow : (dispatchEvent environ d w).world.rowOfTenant tid = x)
    (hsame : SameBeyond tid w (dispatchEvent environ d w).world)
    (hw' : deliver environ w d = w') : w'.rowOfTenant tid = x ∧ SameBeyond tid w w' := by
  subst hw'
  rw [deliver, handleWebhookEvent, hskip, if_neg Bool.false_ne_true]
  cases hr : (dispatchEvent environ d w).raised with
  | some e =>
      simp only [hr]
      exact ⟨hrow, hsame⟩
  | none =>
      obtain ⟨hrows, htenants, -⟩ := markEventProcessed_frame d.faults.markProcessed
        (dispatchEvent environ d w).world d.event
      have hrowOf (t : String) : (markEventProcessed d.faults.markProcessed
          (dispatchEvent environ d w).world d.event).rowOfTenant t =
            (dispatchEvent environ d w).world.rowOfTenant t := by
        rw [World.rowOfTenant, hrows]
        rfl
      simp only [hr]
      refine ⟨(hrowOf tid).trans hrow, htenants.trans hsame.tenants, fun t ht => ?_⟩
      exact (hrowOf t).trans (hsame.rows t ht)

end Resolve

end Engramia.Billing
