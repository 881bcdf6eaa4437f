import Engramia.Billing.Admin
import Engramia.Billing.Committed

/-!
The dunning clock of a subscription row. A history variable remembers when
the row of each tenant last entered `past_due`; the clock is right when the
stored timestamp is that moment on a past-due row and absent on every other
row. Below: what each statement needs for the clock to stay right, and from
it the exact condition for whole runs.
-/
namespace Engramia.Billing

open Engramia.Library

/-- When the row of a tenant last entered `past_due`. -/
abbrev EntryTimes := String → Option Int

/-- The stored timestamp of a row against the history. -/
structure DunningClock (entered : EntryTimes) (r : SubscriptionRow) : Prop where
  runs_iff : r.pastDueSince ≠ none ↔ r.status = "past_due"
  since_entry : r.status = "past_due" →
    r.pastDueSince = (entered r.tenantId).map IsoText.instant

def ClocksRight (rows : List SubscriptionRow) (entered : EntryTimes) : Prop :=
  ∀ r ∈ rows, DunningClock entered r

def statusOf (rows : List SubscriptionRow) (tid : String) : Option String :=
  (rows.find? (onTenant tid)).map (·.status)

/-- The entry time of one row after a write at `now`. -/
def entryAfter (now : Int) (before after : Option String) (entry : Option Int) : Option Int :=
  if after = some "past_due" then
    if before = some "past_due" then entry else some now
  else none

def enteredAfter (now : Int) (rows rows' : List SubscriptionRow) (entered : EntryTimes) :
    EntryTimes :=
  fun tid => entryAfter now (statusOf rows tid) (statusOf rows' tid) (entered tid)

/-- What a statement must find in the rows for the clock to stay right: only
the payment webhooks may move a row into `past_due`, and only they and the
admin endpoint may move it out. -/
def Statement.ClockSafe (rows : List SubscriptionRow) : Statement → Prop
  | .linkCustomer _ _ | .saveStripeCustomer _ _ => True
  | .upsertSubscription tid p =>
      statusOf rows tid = some "past_due" ↔ p.status = "past_due"
  | .downgradeToSandbox cid =>
      ∀ r ∈ rows, r.stripeCustomerId = some cid → r.status ≠ "past_due"
  | .setStatusByCustomer cid status _ =>
      status = "past_due" ∨ status = "active" ∨
        ∀ r ∈ rows, r.stripeCustomerId = some cid → r.status ≠ "past_due"
  | .changeDunningState tid state =>
      state = "past_due" → ∀ r ∈ rows, r.tenantId = tid → r.status = "past_due"

instance (rows : List SubscriptionRow) : (st : Statement) → Decidable (st.ClockSafe rows)
  | .linkCustomer _ _ | .saveStripeCustomer _ _ => inferInstanceAs (Decidable True)
  | .upsertSubscription tid p =>
      inferInstanceAs (Decidable (statusOf rows tid = some "past_due" ↔ p.status = "past_due"))
  | .downgradeToSandbox cid =>
      inferInstanceAs (Decidable
        (∀ r ∈ rows, r.stripeCustomerId = some cid → r.status ≠ "past_due"))
  | .setStatusByCustomer cid status _ =>
      inferInstanceAs (Decidable (status = "past_due" ∨ status = "active" ∨
        ∀ r ∈ rows, r.stripeCustomerId = some cid → r.status ≠ "past_due"))
  | .changeDunningState tid state =>
      inferInstanceAs (Decidable
        (state = "past_due" → ∀ r ∈ rows, r.tenantId = tid → r.status = "past_due"))

def TenantUnique (rows : List SubscriptionRow) : Prop :=
  UniqueOn (fun r => some r.tenantId) rows

theorem statusOf_of_mem {rows : List SubscriptionRow} (hu : TenantUnique rows)
    {r : SubscriptionRow} (hr : r ∈ rows) : statusOf rows r.tenantId = some r.status := by
  rw [statusOf]
  cases hfind : rows.find? (onTenant r.tenantId) with
  | none =>
      have hno := List.find?_eq_none.mp hfind r hr
      exact absurd (onTenant_iff.mpr rfl) hno
  | some r' =>
      have hr' := List.mem_of_find?_eq_some hfind
      have htid := onTenant_iff.mp (List.find?_some hfind)
      have heq : r' = r := UniqueOn.eq_of_key hu hr' hr (congrArg some htid) rfl
      rw [heq]
      rfl

section Update
variable {rows : List SubscriptionRow} {entered : EntryTimes} {now : Int}
  {p : SubscriptionRow → Bool} {f : SubscriptionRow → SubscriptionRow}

theorem tenantUnique_updateWhere (hu : TenantUnique rows)
    (hf : ∀ r, (f r).tenantId = r.tenantId) : TenantUnique (updateWhere p f rows) :=
  UniqueOn.updateWhere hu fun r _ => congrArg some (hf r)

theorem entered_updated (hu : TenantUnique rows) (hf : ∀ r, (f r).tenantId = r.tenantId)
    {r : SubscriptionRow} (hr : r ∈ rows) (hp : p r = true) :
    enteredAfter now rows (updateWhere p f rows) entered r.tenantId =
      entryAfter now (some r.status) (some (f r).status) (entered r.tenantId) := by
  have hafter := statusOf_of_mem (tenantUnique_updateWhere (p := p) hu hf)
    (mem_updateWhere_of_match hr hp)
  rw [hf r] at hafter
  rw [enteredAfter, statusOf_of_mem hu hr, hafter]

theorem entered_untouched (hu : TenantUnique rows) (hf : ∀ r, (f r).tenantId = r.tenantId)
    {r : SubscriptionRow} (hr : r ∈ rows) (hp : p r = false) :
    enteredAfter now rows (updateWhere p f rows) entered r.tenantId =
      entryAfter now (some r.status) (some r.status) (entered r.tenantId) := by
  have hmem : r ∈ updateWhere p f rows := mem_updateWhere.mpr ⟨r, hr, by simp [hp]⟩
  rw [enteredAfter, statusOf_of_mem hu hr,
    statusOf_of_mem (tenantUnique_updateWhere (p := p) hu hf) hmem]

theorem DunningClock.keep {r r' : SubscriptionRow} {entered' : EntryTimes}
    (h : DunningClock entered r) (htid : r'.tenantId = r.tenantId)
    (hstatus : r'.status = r.status) (hsince : r'.pastDueSince = r.pastDueSince)
    (hentry : entered' r.tenantId =
      entryAfter now (some r.status) (some r'.status) (entered r.tenantId)) :
    DunningClock entered' r' := by
  refine ⟨by rw [hsince, hstatus]; exact h.runs_iff, ?_⟩
  intro hdue
  have hdue' : r.status = "past_due" := hstatus ▸ hdue
  rw [htid, hsince, hentry, hstatus, hdue', entryAfter, if_pos rfl, if_pos rfl]
  exact h.since_entry hdue'

/-- An update keeps all clocks right when it does so on the rows it selects. -/
theorem clocksRight_updateWhere_iff (hu : TenantUnique rows)
    (h : ClocksRight rows entered) (hf : ∀ r, (f r).tenantId = r.tenantId) :
    ClocksRight (updateWhere p f rows) (enteredAfter now rows (updateWhere p f rows) entered) ↔
      ∀ r ∈ rows, p r = true →
        DunningClock (enteredAfter now rows (updateWhere p f rows) entered) (f r) := by
  constructor
  · intro hall r hr hp
    exact hall _ (mem_updateWhere_of_match hr hp)
  · intro hsel
    apply updateWhere_all _ hsel
    intro r hr hp
    exact (h r hr).keep rfl rfl rfl (entered_untouched hu hf hr hp)

theorem clocksRight_append_iff {new : SubscriptionRow} (hu : TenantUnique rows)
    (h : ClocksRight rows entered) (hno : ∀ r ∈ rows, onTenant new.tenantId r = false)
    (hsince : new.pastDueSince = none) :
    ClocksRight (rows ++ [new]) (enteredAfter now rows (rows ++ [new]) entered) ↔
      new.status ≠ "past_due" := by
  have hu' : TenantUnique (rows ++ [new]) := by
    refine uniqueOn_append_singleton.mpr ⟨hu, ?_⟩
    intro r hr heq
    have htid : r.tenantId = new.tenantId := by simpa using heq
    have := hno r hr
    rw [onTenant_iff.mpr htid] at this
    cases this
  constructor
  · intro hall hdue
    exact (hall new (List.mem_append_right _ (List.mem_singleton.mpr rfl))).runs_iff.mpr
      hdue hsince
  · intro hnot r hr
    rcases List.mem_append.mp hr with hold | hnew
    · have hentry : enteredAfter now rows (rows ++ [new]) entered r.tenantId =
          entryAfter now (some r.status) (some r.status) (entered r.tenantId) := by
        rw [enteredAfter, statusOf_of_mem hu hold, statusOf_of_mem hu' hr]
      exact (h r hold).keep rfl rfl rfl hentry
    · rw [List.mem_singleton.mp hnew]
      exact ⟨by simp [hsince, hnot], fun hdue => absurd hdue hnot⟩

/-- Leaving the timestamp alone is right exactly when the row does not cross
the border of `past_due`. -/
theorem dunningClock_same_since_iff {r r' : SubscriptionRow} {entered' : EntryTimes}
    (h : DunningClock entered r) (htid : r'.tenantId = r.tenantId)
    (hsince : r'.pastDueSince = r.pastDueSince)
    (hentry : entered' r.tenantId =
      entryAfter now (some r.status) (some r'.status) (entered r.tenantId)) :
    DunningClock entered' r' ↔ (r.status = "past_due" ↔ r'.status = "past_due") := by
  constructor
  · intro h'
    rw [← h.runs_iff, ← hsince]
    exact h'.runs_iff
  · intro hiff
    refine ⟨by rw [hsince, h.runs_iff]; exact hiff, ?_⟩
    intro hdue
    have hdue' := hiff.mpr hdue
    rw [htid, hsince, hentry, hdue, hdue', entryAfter, if_pos rfl, if_pos rfl]
    exact h.since_entry hdue'

theorem dunningClock_setPastDue {r : SubscriptionRow} {entered' : EntryTimes}
    (h : DunningClock entered r)
    (hentry : entered' r.tenantId =
      entryAfter now (some r.status) (some "past_due") (entered r.tenantId)) :
    DunningClock entered' (r.setPastDue now) := by
  refine ⟨by simp [SubscriptionRow.setPastDue], ?_⟩
  intro _
  change some (r.pastDueSince.getD (.instant now)) = (entered' r.tenantId).map IsoText.instant
  rw [hentry, entryAfter, if_pos rfl]
  by_cases hdue : r.status = "past_due"
  · obtain ⟨t, ht⟩ := Option.ne_none_iff_exists'.mp (h.runs_iff.mpr hdue)
    rw [if_pos (congrArg some hdue), ← h.since_entry hdue, ht, Option.getD_some]
  · have hnone : r.pastDueSince = none := by
      by_contra hsome
      exact hdue (h.runs_iff.mp hsome)
    rw [if_neg (fun heq => hdue (Option.some.inj heq)), hnone, Option.getD_none, Option.map_some]

theorem dunningClock_cleared {r' : SubscriptionRow} {entered' : EntryTimes}
    (hstatus : r'.status ≠ "past_due") (hsince : r'.pastDueSince = none) :
    DunningClock entered' r' :=
  ⟨by simp [hsince, hstatus], fun hdue => absurd hdue hstatus⟩

end Update

section Statements
variable {rows : List SubscriptionRow} {entered : EntryTimes} {now : Int}

theorem clocksRight_insert_iff {tid : String} {new : SubscriptionRow}
    {f : SubscriptionRow → SubscriptionRow} (hu : TenantUnique rows)
    (h : ClocksRight rows entered) (hf : ∀ r, (f r).tenantId = r.tenantId)
    (hsince : ∀ r, (f r).pastDueSince = r.pastDueSince) (hnewTenant : new.tenantId = tid)
    (hnewSince : new.pastDueSince = none) :
    ClocksRight (insertOnConflict (onTenant tid) f new rows)
        (enteredAfter now rows (insertOnConflict (onTenant tid) f new rows) entered) ↔
      (∀ r ∈ rows, r.tenantId = tid → (r.status = "past_due" ↔ (f r).status = "past_due")) ∧
        ((∀ r ∈ rows, r.tenantId ≠ tid) → new.status ≠ "past_due") := by
  rcases insertOnConflict_cases (onTenant tid) f new rows with
    ⟨r₀, hr₀, hp₀, heq⟩ | ⟨hno, heq⟩
  · rw [heq, clocksRight_updateWhere_iff hu h hf]
    constructor
    · intro hall
      refine ⟨?_, fun habsent => absurd (onTenant_iff.mp hp₀) (habsent r₀ hr₀)⟩
      intro r hr htid
      have hp := onTenant_iff.mpr htid
      exact (dunningClock_same_since_iff (h r hr) (hf r) (hsince r)
        (entered_updated hu hf hr hp)).mp (hall r hr hp)
    · rintro ⟨hcross, -⟩ r hr hp
      exact (dunningClock_same_since_iff (h r hr) (hf r) (hsince r)
        (entered_updated hu hf hr hp)).mpr (hcross r hr (onTenant_iff.mp hp))
  · rw [heq, clocksRight_append_iff hu h (hnewTenant ▸ hno) hnewSince]
    have habsent : ∀ r ∈ rows, r.tenantId ≠ tid := by
      intro r hr htid
      have := hno r hr
      rw [onTenant_iff.mpr htid] at this
      cases this
    constructor
    · intro hnew
      exact ⟨fun r hr htid => absurd htid (habsent r hr), fun _ => hnew⟩
    · intro hright
      exact hright.2 habsent

theorem clocksRight_update_same_iff {p : SubscriptionRow → Bool}
    {f : SubscriptionRow → SubscriptionRow} (hu : TenantUnique rows)
    (h : ClocksRight rows entered) (hf : ∀ r, (f r).tenantId = r.tenantId)
    (hsince : ∀ r, (f r).pastDueSince = r.pastDueSince) :
    ClocksRight (updateWhere p f rows) (enteredAfter now rows (updateWhere p f rows) entered) ↔
      ∀ r ∈ rows, p r = true → (r.status = "past_due" ↔ (f r).status = "past_due") := by
  rw [clocksRight_updateWhere_iff hu h hf]
  refine forall₂_congr fun r hr => forall_congr' fun hp => ?_
  exact dunningClock_same_since_iff (h r hr) (hf r) (hsince r) (entered_updated hu hf hr hp)

/-- An update that clears the timestamp and leaves `past_due` is always right. -/
theorem clocksRight_update_cleared {p : SubscriptionRow → Bool}
    {f : SubscriptionRow → SubscriptionRow} (hu : TenantUnique rows)
    (h : ClocksRight rows entered) (hf : ∀ r, (f r).tenantId = r.tenantId)
    (hsince : ∀ r, (f r).pastDueSince = none) (hstatus : ∀ r, (f r).status ≠ "past_due") :
    ClocksRight (updateWhere p f rows)
      (enteredAfter now rows (updateWhere p f rows) entered) := by
  rw [clocksRight_updateWhere_iff hu h hf]
  intro r _ _
  exact dunningClock_cleared (hstatus r) (hsince r)

theorem statusOf_eq_some_iff {tid status : String} (hu : TenantUnique rows) :
    statusOf rows tid = some status ↔ ∃ r ∈ rows, r.tenantId = tid ∧ r.status = status := by
  constructor
  · intro hs
    obtain ⟨r, hr, hstatus⟩ := Option.map_eq_some_iff.mp hs
    exact ⟨r, List.mem_of_find?_eq_some hr, onTenant_iff.mp (List.find?_some hr), hstatus⟩
  · rintro ⟨r, hr, rfl, rfl⟩
    exact statusOf_of_mem hu hr

/-- Both branches of the upsert ask the same of the status before it. -/
theorem upsert_crossing_iff {tid : String} {p : UpsertParams} (hu : TenantUnique rows) :
    ((∀ r ∈ rows, r.tenantId = tid → (r.status = "past_due" ↔ (p.assign r).status = "past_due")) ∧
      ((∀ r ∈ rows, r.tenantId ≠ tid) →
        (p.assign (defaultRow tid (some p.cid))).status ≠ "past_due")) ↔
      (statusOf rows tid = some "past_due" ↔ p.status = "past_due") := by
  constructor
  · rintro ⟨hupd, hins⟩
    by_cases hrow : ∃ r ∈ rows, r.tenantId = tid
    · obtain ⟨r, hr, rfl⟩ := hrow
      rw [statusOf_of_mem hu hr, Option.some.injEq]
      exact hupd r hr rfl
    · have habsent : ∀ r ∈ rows, r.tenantId ≠ tid := fun r hr htid => hrow ⟨r, hr, htid⟩
      rw [statusOf_eq_some_iff hu]
      exact ⟨fun ⟨r, hr, htid, _⟩ => absurd htid (habsent r hr),
        fun hdue => absurd hdue (hins habsent)⟩
  · intro hsafe
    constructor
    · rintro r hr rfl
      rw [statusOf_of_mem hu hr, Option.some.injEq] at hsafe
      exact hsafe
    · intro habsent hdue
      obtain ⟨r, hr, htid, -⟩ := (statusOf_eq_some_iff hu).mp (hsafe.mpr hdue)
      exact habsent r hr htid

theorem clocksRight_run_iff (hu : TenantUnique rows) (h : ClocksRight rows entered)
    (st : Statement) (hnow : st.ReadAt now) :
    ClocksRight (st.run rows) (enteredAfter now rows (st.run rows) entered) ↔
      st.ClockSafe rows := by
  cases st with
  | linkCustomer tid cid | saveStripeCustomer tid cid =>
      simp only [Statement.run, Statement.ClockSafe, iff_true]
      rw [clocksRight_insert_iff hu h]
      · exact ⟨fun _ _ _ => Iff.rfl, fun _ => by simp [SubscriptionRow.setStatus]⟩
      all_goals intros; rfl
  | upsertSubscription tid p =>
      simp only [Statement.run, Statement.ClockSafe]
      rw [clocksRight_insert_iff hu h]
      · exact upsert_crossing_iff hu
      all_goals intros; rfl
  | downgradeToSandbox cid =>
      simp only [Statement.run, Statement.ClockSafe]
      rw [clocksRight_update_same_iff hu h]
      · simp [onCustomer_iff, SubscriptionRow.downgrade]
      all_goals intros; rfl
  | setStatusByCustomer cid status t =>
      obtain rfl : t = now := hnow
      simp only [Statement.run, Statement.ClockSafe]
      by_cases hdue : status = "past_due"
      · subst hdue
        have hf (r : SubscriptionRow) : (r.setPastDue t).tenantId = r.tenantId := rfl
        simp only [true_or, iff_true, statusUpdate, if_true]
        rw [clocksRight_updateWhere_iff hu h hf]
        intro r hr hp
        exact dunningClock_setPastDue (h r hr) (entered_updated hu hf hr hp)
      · by_cases hactive : status = "active"
        · subst hactive
          simp only [true_or, or_true, iff_true, statusUpdate, if_neg hdue, if_true]
          apply clocksRight_update_cleared hu h
          · intros; rfl
          · intros; rfl
          · simp [SubscriptionRow.setActive]
        · simp only [hdue, hactive, false_or, statusUpdate, if_false]
          rw [clocksRight_update_same_iff hu h]
          · simp [onCustomer_iff, SubscriptionRow.setStatus, hdue]
          all_goals intros; rfl
  | changeDunningState tid state =>
      simp only [Statement.run, Statement.ClockSafe]
      by_cases hdue : state = "past_due"
      · subst hdue
        have hfun : SubscriptionRow.changeDunning "past_due" = .setStatus "past_due" := by
          funext r
          simp [SubscriptionRow.changeDunning, SubscriptionRow.setStatus]
        rw [hfun, clocksRight_update_same_iff hu h]
        · simp [onTenant_iff, SubscriptionRow.setStatus]
        all_goals intros; rfl
      · have hf (r : SubscriptionRow) : SubscriptionRow.changeDunning state r =
            { r with status := state, pastDueSince := none } := if_neg hdue
        simp only [hdue, false_implies, iff_true]
        apply clocksRight_update_cleared hu h
        · intro r; rw [hf r]
        · intro r; rw [hf r]
        · intro r; rw [hf r]; exact hdue

end Statements

end Engramia.Billing
