import Engramia.Billing.Overage

/-!
Orderly runs of the overage machine. What is billed for a month and what the
handlers in flight are about to bill add up to what is due for it, once some
delivery has claimed the month; an orderly step keeps it so.
-/
namespace Engramia.Billing

open Engramia.Library

section Invariant
variable (t : OverageTerms) (closes : String → Period)

/-- The month is billed in full and some delivery is past reading for it. -/
def Settled (s : OverageState) (m : Period) : Prop :=
  s.total m = s.dueFor t m ∧ Closing s m

/-- The handler has nothing left to charge. -/
def Handler.Done (h : Handler) : Prop :=
  h.stage = .charged ∨ ∃ m item, h.stage = .priced m item ∧ itemAmount item = 0

/-- What is billed and what is about to be are together what is due for every
month claimed, and nothing for the others. -/
structure OverageInv (s : OverageState) : Prop where
  hold : t.Hold s.world
  committed : ∀ m, s.total m + pendingTotal m s.inFlight = if Claimed s m then s.dueFor t m else 0
  bills_nonneg : ∀ b ∈ s.bills, 0 ≤ b.2
  pending_nonneg : ∀ h ∈ s.inFlight, ∀ m, 0 ≤ pendingAmount m h
  pending_due : ∀ h ∈ s.inFlight, ∀ m item, h.stage = .priced m item → itemAmount item ≠ 0 →
    closes h.eventId = m ∧ Claimed s m ∧ Closing s m ∧ itemAmount item = s.dueFor t m
  done_settled : ∀ h ∈ s.inFlight, h.Done → Settled t s (closes h.eventId)
  processed_settled : ∀ e ∈ s.world.processedEvents, Settled t s (closes e.1)

variable {t closes}

theorem billedOnce_of_inv (hcap : t.CapNonneg) {s : OverageState} (h : OverageInv t closes s) :
    BilledOnce t closes s := by
  intro m
  constructor
  · have hcommitted := h.committed m
    have hpending := pendingTotal_nonneg h.pending_nonneg m
    split at hcommitted
    · omega
    · have hdue : 0 ≤ s.dueFor t m := t.due_nonneg hcap _
      omega
  · rintro e he rfl
    exact (h.processed_settled e he).1

/-- An increment that makes nothing more due for a month in progress keeps the
books. -/
theorem inv_increment {s : OverageState} (h : OverageInv t closes s)
    (hg : OverageOp.increment.Orderly t closes s) :
    OverageInv t closes (overageStep t closes s .increment) := by
  have hdue (m : Period) (hm : Claimed s m ∨ Closing s m) :
      (overageStep t closes s .increment).dueFor t m = s.dueFor t m := by
    simp only [OverageState.dueFor, OverageState.runs, overageStep, getCount_increment, true_and]
    by_cases hperiod : m = s.period
    · subst hperiod
      rw [if_pos rfl]
      exact hg hm
    · rw [if_neg hperiod, Nat.add_zero]
  have hsettled (m : Period) (hm : Settled t s m) :
      Settled t (overageStep t closes s .increment) m :=
    ⟨hm.1.trans (hdue m (.inr hm.2)).symm, hm.2⟩
  refine ⟨h.hold.congr rfl rfl rfl, ?_, h.bills_nonneg, h.pending_nonneg, ?_, ?_, ?_⟩
  · intro m
    have hcommitted := h.committed m
    change s.total m + pendingTotal m s.inFlight = if Claimed s m then _ else 0
    by_cases hclaimed : Claimed s m
    · rw [if_pos hclaimed] at hcommitted ⊢
      rw [hdue m (.inl hclaimed)]
      exact hcommitted
    · rw [if_neg hclaimed] at hcommitted ⊢
      exact hcommitted
  · intro x hx m item hstage hne
    obtain ⟨hcloses, hclaimed, hclosing, hamount⟩ := h.pending_due x hx m item hstage hne
    exact ⟨hcloses, hclaimed, hclosing, hamount.trans (hdue m (.inl hclaimed)).symm⟩
  · exact fun x hx hdone => hsettled _ (h.done_settled x hx hdone)
  · exact fun e he => hsettled _ (h.processed_settled e he)

theorem inv_rollover {s : OverageState} (h : OverageInv t closes s) :
    OverageInv t closes (overageStep t closes s .rollover) :=
  ⟨h.hold, h.committed, h.bills_nonneg, h.pending_nonneg, h.pending_due, h.done_settled,
    h.processed_settled⟩

theorem inv_receive {s : OverageState} (h : OverageInv t closes s) (eventId : String) :
    OverageInv t closes (overageStep t closes s (.receive eventId)) := by
  rw [overageStep]
  split
  · exact h
  · refine ⟨h.hold, ?_, h.bills_nonneg, ?_, ?_, ?_, h.processed_settled⟩
    · intro m
      have hcommitted := h.committed m
      rw [pendingTotal_cons]
      change s.total m + (0 + pendingTotal m s.inFlight) = _
      rw [zero_add]
      exact hcommitted
    · exact List.forall_mem_cons.mpr ⟨fun _ => le_refl 0, h.pending_nonneg⟩
    · refine List.forall_mem_cons.mpr ⟨?_, h.pending_due⟩
      intro m item hstage
      cases hstage
    · refine List.forall_mem_cons.mpr ⟨?_, h.done_settled⟩
      rintro (hstage | ⟨m, item, hstage, -⟩) <;> cases hstage

section Moves
variable {s : OverageState} {i : Nat} {x y : Handler} {m : Period}

theorem forall_moved {P : Handler → Prop} {hs : List Handler} (hx : P x)
    (h : ∀ y ∈ hs, P y) : ∀ y ∈ x :: hs.eraseIdx i, P y :=
  List.forall_mem_cons.mpr ⟨hx, fun y hy => h y (List.mem_of_mem_eraseIdx hy)⟩

theorem OverageInv.committed_moved (h : OverageInv t closes s)
    (hpick : s.inFlight[i]? = some y) (hsame : pendingAmount m x = pendingAmount m y) :
    s.total m + pendingTotal m (x :: s.inFlight.eraseIdx i) =
      if Claimed s m then s.dueFor t m else 0 := by
  rw [pendingTotal_cons, hsame, ← pendingTotal_pick hpick]
  exact h.committed m

theorem Settled.read (h : Settled t s m) (hs : List Handler) (r : CounterRead) :
    Settled t { s with inFlight := hs, reads := r :: s.reads } m :=
  ⟨h.1, h.2.imp fun _ hr => ⟨List.mem_cons_of_mem _ hr.1, hr.2⟩⟩

theorem claimed_read (hs : List Handler) (r : CounterRead) :
    Claimed { s with inFlight := hs, reads := r :: s.reads } m ↔
      r.month = m ∧ r.amount ≠ 0 ∨ Claimed s m := by
  simp [Claimed]

theorem OverageInv.pending_due_read (h : OverageInv t closes s) (r : CounterRead)
    (hs : List Handler) :
    ∀ y ∈ s.inFlight, ∀ m item, y.stage = .priced m item → itemAmount item ≠ 0 →
      closes y.eventId = m ∧ Claimed { s with inFlight := hs, reads := r :: s.reads } m ∧
        Closing { s with inFlight := hs, reads := r :: s.reads } m ∧
        itemAmount item = s.dueFor t m := by
  intro y hy m item hstage hne
  obtain ⟨hcloses, hclaim, hclosing, hamount⟩ := h.pending_due y hy m item hstage hne
  exact ⟨hcloses, (claimed_read hs r).mpr (.inr hclaim),
    hclosing.imp fun _ hr => ⟨List.mem_cons_of_mem _ hr.1, hr.2⟩, hamount⟩

end Moves

theorem inv_read_nothing {s : OverageState} (h : OverageInv t closes s) {i : Nat}
    {eventId : String} (hpick : s.inFlight[i]? = some ⟨eventId, .checked⟩)
    {item : Option InvoiceItem} (hitem : itemAmount item = 0)
    (hbilled : s.total (closes eventId) = s.dueFor t (closes eventId)) :
    OverageInv t closes
      { s with
        inFlight := ⟨eventId, .priced s.period item⟩ :: s.inFlight.eraseIdx i
        reads := ⟨s.period, closes eventId, itemAmount item⟩ :: s.reads } := by
  have hzero (m : Period) : pendingAmount m ⟨eventId, .priced s.period item⟩ = 0 := by
    simp [pendingAmount, hitem]
  refine ⟨h.hold, ?_, h.bills_nonneg, ?_, ?_, ?_, ?_⟩
  · intro m
    refine (h.committed_moved hpick (hzero m)).trans (if_congr ?_ rfl rfl)
    exact ((claimed_read _ _).trans (or_iff_right fun hr => hr.2 hitem)).symm
  · exact forall_moved (fun m => (hzero m).ge) h.pending_nonneg
  · apply forall_moved _ (h.pending_due_read _ _)
    rintro m item' ⟨⟩ hne
    exact absurd hitem hne
  · refine forall_moved ?_ fun y hy => ?_
    · exact fun _ => ⟨hbilled, _, List.mem_cons_self, rfl⟩
    · exact fun hdone => (h.done_settled y hy hdone).read _ _
  · exact fun e he => (h.processed_settled e he).read _ _

/-- The first read of a counter that calls for a charge, by an event that
closes the month. -/
theorem inv_read_charge {s : OverageState} (h : OverageInv t closes s) {i : Nat}
    {eventId : String} (hpick : s.inFlight[i]? = some ⟨eventId, .checked⟩)
    {item : Option InvoiceItem} (hitem : itemAmount item = s.dueFor t s.period)
    (hne : itemAmount item ≠ 0) (hnn : 0 ≤ itemAmount item) (hcloses : closes eventId = s.period)
    (hfirst : ¬ Claimed s s.period) :
    OverageInv t closes
      { s with
        inFlight := ⟨eventId, .priced s.period item⟩ :: s.inFlight.eraseIdx i
        reads := ⟨s.period, closes eventId, itemAmount item⟩ :: s.reads } := by
  have hpending (m : Period) : pendingAmount m ⟨eventId, .priced s.period item⟩ =
      if s.period = m then itemAmount item else 0 := rfl
  refine ⟨h.hold, ?_, h.bills_nonneg, ?_, ?_, ?_, ?_⟩
  · intro m
    have hcommitted := h.committed m
    have hchecked : pendingAmount m ⟨eventId, .checked⟩ = 0 := rfl
    rw [pendingTotal_pick hpick, hchecked, zero_add] at hcommitted
    refine Eq.trans ?_ (if_congr (claimed_read _ _).symm rfl rfl)
    rw [pendingTotal_cons, hpending]
    change s.total m + (_ + pendingTotal m (s.inFlight.eraseIdx i)) = if _ then s.dueFor t m else 0
    by_cases hm : s.period = m
    · subst hm
      rw [if_neg hfirst] at hcommitted
      rw [if_pos rfl, if_pos (.inl ⟨rfl, hne⟩)]
      omega
    · simp only [hm, if_false, false_and, false_or, zero_add]
      exact hcommitted
  · apply forall_moved _ h.pending_nonneg
    intro m
    rw [hpending]
    split
    · exact hnn
    · exact le_refl 0
  · apply forall_moved _ (h.pending_due_read _ _)
    rintro m item' ⟨⟩ -
    exact ⟨hcloses, (claimed_read _ _).mpr (.inl ⟨rfl, hne⟩), ⟨_, List.mem_cons_self, hcloses⟩,
      hitem⟩
  · refine forall_moved ?_ fun y hy => ?_
    · rintro (hstage | ⟨m, item', hstage, hzero⟩)
      · cases hstage
      · cases hstage
        exact absurd hzero hne
    · exact fun hdone => (h.done_settled y hy hdone).read _ _
  · exact fun e he => (h.processed_settled e he).read _ _

theorem inv_read (hcap : t.CapNonneg) {s : OverageState} (h : OverageInv t closes s) {i : Nat}
    (hg : (OverageOp.read i).Orderly t closes s) :
    OverageInv t closes (overageStep t closes s (.read i)) := by
  rw [overageStep]
  rw [OverageOp.Orderly] at hg
  split
  · rename_i eventId hpick
    rw [hpick] at hg
    have hamount := itemAmount_overageCharge hcap h.hold s.period
    change itemAmount _ = s.dueFor t s.period at hamount
    by_cases hdue : s.dueFor t s.period = 0
    · simp only [hdue, if_true] at hg
      exact inv_read_nothing h hpick (hamount.trans hdue) hg
    · simp only [hdue, if_false] at hg
      refine inv_read_charge h hpick hamount ?_ ?_ hg.1 hg.2
      · rw [hamount]
        exact hdue
      · rw [hamount]
        exact t.due_nonneg hcap _
  · exact h

theorem total_of_pending {s : OverageState} (h : OverageInv t closes s) {i : Nat} {x : Handler}
    {m : Period} {item : Option InvoiceItem} (hpick : s.inFlight[i]? = some x)
    (hstage : x.stage = .priced m item) (hne : itemAmount item ≠ 0) : s.total m = 0 := by
  obtain ⟨-, hclaimed, -, hamount⟩ := h.pending_due x (mem_of_pick hpick) m item hstage hne
  have hcommitted := h.committed m
  rw [if_pos hclaimed, pendingTotal_pick hpick] at hcommitted
  have hself : pendingAmount m x = itemAmount item := by
    simp [pendingAmount, hstage]
  have hrest : 0 ≤ pendingTotal m (s.inFlight.eraseIdx i) :=
    pendingTotal_nonneg (fun y hy => h.pending_nonneg y (List.mem_of_mem_eraseIdx hy)) m
  have htotal := OverageState.total_nonneg h.bills_nonneg m
  omega

section Charge
variable {s : OverageState} {i : Nat} {eventId : String} {month : Period} {item : InvoiceItem}

/-- The pending item of the picked handler has been created. -/
def OverageState.charged (s : OverageState) (i : Nat) (eventId : String) (month : Period)
    (item : InvoiceItem) : OverageState :=
  { s with
    world := (createInvoiceItem .ok s.world item).world
    inFlight := ⟨eventId, .charged⟩ :: s.inFlight.eraseIdx i
    bills := (month, item.amountCents) :: s.bills }

theorem total_charged (m : Period) : (s.charged i eventId month item).total m =
    (if month = m then item.amountCents else 0) + s.total m :=
  List.sum_cons

theorem Settled.charge (h : OverageInv t closes s)
    (hpick : s.inFlight[i]? = some ⟨eventId, .priced month (some item)⟩) {m : Period}
    (hm : Settled t s m) : Settled t (s.charged i eventId month item) m := by
  refine ⟨?_, hm.2⟩
  rw [total_charged]
  change _ = s.dueFor t m
  by_cases hsame : month = m
  · subst hsame
    by_cases hne : item.amountCents = 0
    · rw [if_pos rfl, hne, zero_add]
      exact hm.1
    · have hamount := (h.pending_due _ (mem_of_pick hpick) month (some item) rfl hne).2.2.2
      have hzero : s.total month = 0 := total_of_pending h hpick rfl hne
      have hfull := hm.1
      rw [hzero, ← hamount] at hfull
      exact absurd hfull.symm hne
  · rw [if_neg hsame, zero_add]
    exact hm.1

theorem settled_charged (h : OverageInv t closes s)
    (hpick : s.inFlight[i]? = some ⟨eventId, .priced month (some item)⟩) :
    Settled t (s.charged i eventId month item) (closes eventId) := by
  by_cases hne : item.amountCents = 0
  · have hdone : Handler.Done ⟨eventId, .priced month (some item)⟩ :=
      .inr ⟨month, some item, rfl, hne⟩
    exact (h.done_settled _ (mem_of_pick hpick) hdone).charge h hpick
  · obtain ⟨hcloses, -, hclosing, hamount⟩ :=
      h.pending_due _ (mem_of_pick hpick) month (some item) rfl hne
    have hzero : s.total month = 0 := total_of_pending h hpick rfl hne
    dsimp only at hcloses
    rw [hcloses]
    refine ⟨?_, hclosing⟩
    rw [total_charged, if_pos rfl, hzero, add_zero]
    exact hamount

theorem inv_charge_item (h : OverageInv t closes s)
    (hpick : s.inFlight[i]? = some ⟨eventId, .priced month (some item)⟩) :
    OverageInv t closes (s.charged i eventId month item) := by
  refine ⟨h.hold.congr rfl rfl rfl, ?_, ?_, ?_, ?_, ?_, ?_⟩
  · intro m
    have hcommitted := h.committed m
    rw [pendingTotal_pick hpick] at hcommitted
    have hpending : pendingAmount m ⟨eventId, .priced month (some item)⟩ =
        if month = m then item.amountCents else 0 := rfl
    have hcharged : pendingAmount m ⟨eventId, .charged⟩ = 0 := rfl
    rw [hpending] at hcommitted
    rw [total_charged, OverageState.charged, pendingTotal_cons, hcharged]
    refine Eq.trans ?_ hcommitted
    omega
  · apply List.forall_mem_cons.mpr ⟨_, h.bills_nonneg⟩
    have hpending := h.pending_nonneg _ (mem_of_pick hpick) month
    simpa [pendingAmount, itemAmount] using hpending
  · exact forall_moved (fun _ => le_refl 0) h.pending_nonneg
  · apply forall_moved _ h.pending_due
    intro m item' hstage
    cases hstage
  · refine forall_moved ?_ fun y hy => ?_
    · exact fun _ => settled_charged h hpick
    · exact fun hdone => (h.done_settled y hy hdone).charge h hpick
  · exact fun e he => (h.processed_settled e he).charge h hpick

theorem inv_charge_none (h : OverageInv t closes s)
    (hpick : s.inFlight[i]? = some ⟨eventId, .priced month none⟩) :
    OverageInv t closes
      { s with inFlight := ⟨eventId, .charged⟩ :: s.inFlight.eraseIdx i } := by
  refine ⟨h.hold, ?_, h.bills_nonneg, ?_, ?_, ?_, h.processed_settled⟩
  · intro m
    apply h.committed_moved hpick
    simp [pendingAmount, itemAmount]
  · exact forall_moved (fun _ => le_refl 0) h.pending_nonneg
  · apply forall_moved _ h.pending_due
    intro m item' hstage
    cases hstage
  · have hdone : Handler.Done ⟨eventId, .priced month none⟩ := .inr ⟨month, none, rfl, rfl⟩
    have hself : Settled t s (closes eventId) := h.done_settled _ (mem_of_pick hpick) hdone
    exact forall_moved (fun _ => hself) h.done_settled

end Charge

theorem inv_charge {s : OverageState} (h : OverageInv t closes s) (i : Nat) :
    OverageInv t closes (overageStep t closes s (.charge i)) := by
  rw [overageStep]
  split
  · rename_i eventId month hpick
    exact inv_charge_none h hpick
  · rename_i eventId month item hpick
    exact inv_charge_item h hpick
  · exact h

theorem inv_finish {s : OverageState} (h : OverageInv t closes s) (i : Nat) :
    OverageInv t closes (overageStep t closes s (.finish i)) := by
  rw [overageStep]
  split
  · rename_i eventId hpick
    have hrest {x : Handler} (hx : x ∈ s.inFlight.eraseIdx i) : x ∈ s.inFlight :=
      List.mem_of_mem_eraseIdx hx
    have hmarked : (markEventProcessed false s.world (invoiceCreated t eventId)) = s.world ∨
        (markEventProcessed false s.world (invoiceCreated t eventId)) =
          { s.world with
            processedEvents := s.world.processedEvents ++ [(eventId, "invoice.created")] } := by
      rw [markEventProcessed]
      split
      · exact .inl rfl
      · exact .inr rfl
    have hcommitted (m : Period) : s.total m + pendingTotal m (s.inFlight.eraseIdx i) =
        if Claimed s m then s.dueFor t m else 0 := by
      have hold := h.committed m
      have hzero : pendingAmount m ⟨eventId, .charged⟩ = 0 := rfl
      rw [pendingTotal_pick hpick, hzero, zero_add] at hold
      exact hold
    have hself : Settled t s (closes eventId) :=
      h.done_settled _ (mem_of_pick hpick) (.inl rfl)
    rcases hmarked with heq | heq <;> rw [heq]
    · exact ⟨h.hold, hcommitted, h.bills_nonneg, fun x hx => h.pending_nonneg x (hrest hx),
        fun x hx => h.pending_due x (hrest hx), fun x hx => h.done_settled x (hrest hx),
        h.processed_settled⟩
    · refine ⟨h.hold.congr rfl rfl rfl, hcommitted, h.bills_nonneg,
        fun x hx => h.pending_nonneg x (hrest hx), fun x hx => h.pending_due x (hrest hx),
        fun x hx => h.done_settled x (hrest hx), ?_⟩
      intro e he
      rcases List.mem_append.mp he with he | he
      · exact h.processed_settled e he
      · rw [List.mem_singleton.mp he]
        exact hself
  · exact h

theorem inv_step (hcap : t.CapNonneg) {s : OverageState} (op : OverageOp)
    (h : OverageInv t closes s) (hg : op.Orderly t closes s) :
    OverageInv t closes (overageStep t closes s op) := by
  cases op with
  | increment => exact inv_increment h hg
  | rollover => exact inv_rollover h
  | receive eventId => exact inv_receive h eventId
  | read i => exact inv_read hcap h hg
  | charge i => exact inv_charge h i
  | finish i => exact inv_finish h i

end Invariant

/-- Nothing in flight, recorded or billed yet. -/
structure OverageStart (t : OverageTerms) (s : OverageState) : Prop where
  hold : t.Hold s.world
  inFlight : s.inFlight = []
  reads : s.reads = []
  bills : s.bills = []
  processed : s.world.processedEvents = []

theorem inv_start {t : OverageTerms} {closes : String → Period} {s : OverageState}
    (h : OverageStart t s) : OverageInv t closes s := by
  have hno {x : Handler} (hx : x ∈ s.inFlight) : False := by
    rw [h.inFlight] at hx
    cases hx
  refine ⟨h.hold, ?_, ?_, fun x hx => (hno hx).elim, fun x hx => (hno hx).elim,
    fun x hx => (hno hx).elim, ?_⟩
  · intro m
    have hclaimed : ¬ Claimed s m := by
      simp [Claimed, h.reads]
    rw [if_neg hclaimed, OverageState.total, h.bills, h.inFlight]
    rfl
  · intro b hb
    rw [h.bills] at hb
    cases hb
  · intro e he
    rw [h.processed] at he
    cases he

/-- In an orderly run every month's overage is billed once and in full. -/
theorem billedOnce_of_orderly {t : OverageTerms} (closes : String → Period)
    (hcap : t.CapNonneg) {s : OverageState} (hstart : OverageStart t s) {ops : List OverageOp}
    (hops : AllSteps (overageStep t closes) (OverageOp.Orderly t closes) s ops) :
    Always (overageStep t closes) (BilledOnce t closes) s ops :=
  (always_of_allSteps (fun _ op h hg => inv_step hcap op h hg) (inv_start hstart) hops).mono
    fun _ => billedOnce_of_inv hcap

section Sample

/-- `acme` on the pro plan with overage enabled, one block over in January. -/
def acmeTerms : OverageTerms :=
  { tid := "acme"
    cid := "cus_1"
    sub := acmeRow.toSubscription
    limit := 50000
    settings := ⟨true, 500, 5000, some 100000, by decide⟩
    tid_ne := acme_ne_empty
    limited := rfl
    enabled := rfl }

def january : Period := ⟨2026, 1⟩

def acmeOverage (runs : Nat) : OverageState :=
  { world :=
      { acmePaidWorld with
        overageSettings := [⟨"acme", metricEvalRuns, acmeTerms.settings⟩]
        usageCounters := [⟨"acme", metricEvalRuns, january, runs⟩] }
    period := january
    inFlight := []
    reads := []
    bills := [] }

theorem acmeOverage_start (runs : Nat) : OverageStart acmeTerms (acmeOverage runs) :=
  ⟨⟨rfl, rfl, rfl⟩, rfl, rfl, rfl, rfl⟩

/-- The closing event is handled while January still runs, its redelivery
after it. -/
theorem billedOnce_acme :
    Always (overageStep acmeTerms fun _ => january) (BilledOnce acmeTerms fun _ => january)
      (acmeOverage 55000)
      [.receive "evt_1", .read 0, .charge 0, .finish 0, .rollover, .receive "evt_1",
       .increment] :=
  billedOnce_of_orderly (fun _ => january) (by decide) (acmeOverage_start 55000)
    (by decide +kernel)

def acmeRun (ops : List OverageOp) : OverageState :=
  exec (overageStep acmeTerms fun _ => january) (acmeOverage 55000) ops

/-- The event that closes January arrives when February has begun: the block
of January is never billed. A second invoice event in January bills it twice. -/
theorem overage_missed_and_doubled :
    OverageStart acmeTerms (acmeOverage 55000) ∧
    (acmeOverage 55000).dueFor acmeTerms january = 500 ∧
    ¬ BilledOnce acmeTerms (fun _ => january)
      (acmeRun [.rollover, .receive "evt_1", .read 0, .charge 0, .finish 0]) ∧
    ¬ BilledOnce acmeTerms (fun _ => january)
      (acmeRun [.receive "evt_1", .read 0, .charge 0, .finish 0,
        .receive "evt_2", .read 0, .charge 0, .finish 0]) := by
  refine ⟨acmeOverage_start 55000, by decide +kernel, ?_, ?_⟩
  · intro h
    have hbilled := (h january).2
    revert hbilled
    decide +kernel
  · intro h
    have hbilled := (h january).1
    revert hbilled
    decide +kernel

end Sample

end Engramia.Billing
