import Engramia.Library.OrderedDict
import Engramia.Library.Run
import Engramia.Library.Tally

/-!
The in-process connection limiter of the hosted MCP server. Its calls are coroutines: a
call runs up to the lock, and the section behind the lock is one step. What a call has
computed before it waits for the lock is kept with it.
-/
namespace Engramia.Mcp
open Engramia.Library

structure AcquiredSlot where
  tenantId : String
  planTier : String
  released : Bool := false
deriving DecidableEq

def AcquiredSlot.marked (slot : AcquiredSlot) : AcquiredSlot := { slot with released := true }

/-- `InMemoryConnectionLimiter`. -/
structure ConnectionLimiter where
  limits : OrderedDict String Int
  counts : OrderedDict String Int

structure ConnectionLimitExceeded where
  tenantId : String
  planTier : String
  used : Int
  cap : Int
deriving DecidableEq

/-- What `acquire` raises: a `ValueError` for a tier without a limit, or the refusal. -/
inductive AcquireError where
  | noLimit (planTier : String)
  | exceeded (refusal : ConnectionLimitExceeded)
deriving DecidableEq

def defaultTierLimits : OrderedDict String Int :=
  ⟨[("team", 5), ("business", 25), ("enterprise", 100)], by decide⟩

section Limiter
variable (l : ConnectionLimiter)

def capFor (planTier : String) : Int := (l.limits.get? planTier).getD 0

def activeCount (tenantId : String) : Int := (l.counts.get? tenantId).getD 0

/-- The section of `acquire` behind the lock. -/
def lockedAcquire (tenantId planTier : String) (cap : Int) :
    Except ConnectionLimitExceeded ConnectionLimiter :=
  let current := activeCount l tenantId
  if cap ≤ current then
    .error { tenantId := tenantId, planTier := planTier, used := current, cap := cap }
  else .ok { l with counts := l.counts.set tenantId (current + 1) }

/-- The section of `_release` behind the lock. -/
def lockedRelease (tenantId : String) : ConnectionLimiter :=
  let remaining := activeCount l tenantId - 1
  if remaining ≤ 0 then { l with counts := l.counts.discard (· = tenantId) }
  else { l with counts := l.counts.set tenantId remaining }

/-- A call of `acquire` that does not wait for the lock. -/
def acquire (tenantId planTier : String) : Except AcquireError (ConnectionLimiter × AcquiredSlot) :=
  let cap := capFor l planTier
  if cap ≤ 0 then .error (.noLimit planTier)
  else
    match lockedAcquire l tenantId planTier cap with
    | .error refusal => .error (.exceeded refusal)
    | .ok l' => .ok (l', { tenantId := tenantId, planTier := planTier })

/-- A call of `AcquiredSlot.release` that does not wait for the lock. -/
def release (slot : AcquiredSlot) : ConnectionLimiter × AcquiredSlot :=
  if slot.released then (l, slot)
  else (lockedRelease l slot.tenantId, slot.marked)

variable {l} {l' : ConnectionLimiter} {tenantId planTier : String} {cap : Int}

theorem activeCount_set (n : Int) (t : String) :
    activeCount { l with counts := l.counts.set tenantId n } t =
      if t = tenantId then n else activeCount l t := by
  rw [activeCount, OrderedDict.get?_set]
  by_cases ht : t = tenantId
  · rw [if_pos ht, if_pos ht, Option.getD_some]
  · rw [if_neg ht, if_neg ht]
    rfl

theorem lockedAcquire_cases (l : ConnectionLimiter) (tenantId planTier : String) (cap : Int) :
    (cap ≤ activeCount l tenantId ∧
      lockedAcquire l tenantId planTier cap =
        .error ⟨tenantId, planTier, activeCount l tenantId, cap⟩) ∨
    ∃ l', activeCount l tenantId < cap ∧ lockedAcquire l tenantId planTier cap = .ok l' ∧
      l'.limits = l.limits ∧
      ∀ t, activeCount l' t =
        if t = tenantId then activeCount l tenantId + 1 else activeCount l t := by
  rw [lockedAcquire]
  by_cases hcap : cap ≤ activeCount l tenantId
  · exact .inl ⟨hcap, if_pos hcap⟩
  · exact .inr ⟨_, by omega, if_neg hcap, rfl, activeCount_set _⟩

theorem limits_lockedRelease (l : ConnectionLimiter) (tenantId : String) :
    (lockedRelease l tenantId).limits = l.limits := by
  rw [lockedRelease]
  by_cases hremaining : activeCount l tenantId - 1 ≤ 0
  · rw [if_pos hremaining]
  · rw [if_neg hremaining]

theorem activeCount_lockedRelease (t : String) :
    activeCount (lockedRelease l tenantId) t =
      if t = tenantId then max 0 (activeCount l tenantId - 1) else activeCount l t := by
  rw [lockedRelease]
  by_cases hremaining : activeCount l tenantId - 1 ≤ 0
  · rw [if_pos hremaining, activeCount, OrderedDict.get?_discard]
    by_cases ht : t = tenantId
    · rw [if_pos (decide_eq_true ht), if_pos ht, Option.getD_none]
      omega
    · rw [if_neg (by simpa using ht), if_neg ht]
      rfl
  · rw [if_neg hremaining, activeCount_set]
    by_cases ht : t = tenantId
    · rw [if_pos ht, if_pos ht]
      omega
    · rw [if_neg ht, if_neg ht]

end Limiter

/-- A call of `acquire` that waits for the lock, with the cap it has looked up. -/
structure PendingAcquire where
  tenantId : String
  planTier : String
  cap : Int
deriving DecidableEq

/-- The limiter with the calls under way and every slot that was handed out. A release that
waits for the lock has set the flag of its slot and knows only the tenant. -/
structure LimiterRun where
  limiter : ConnectionLimiter
  acquiring : List PendingAcquire
  slots : List AcquiredSlot
  releasing : List String

inductive LimiterStep where
  | acquire (tenantId planTier : String)
  | lockAcquire (call : PendingAcquire)
  | release (slot : Nat)
  | lockRelease (tenantId : String)

def limiterStep (s : LimiterRun) : LimiterStep → LimiterRun
  | .acquire tenantId planTier =>
      let cap := capFor s.limiter planTier
      if cap ≤ 0 then s
      else { s with acquiring := s.acquiring ++ [⟨tenantId, planTier, cap⟩] }
  | .lockAcquire call =>
      if call ∈ s.acquiring then
        let rest := s.acquiring.erase call
        match lockedAcquire s.limiter call.tenantId call.planTier call.cap with
        | .error _ => { s with acquiring := rest }
        | .ok limiter =>
            { s with
              limiter := limiter
              acquiring := rest
              slots := s.slots ++ [{ tenantId := call.tenantId, planTier := call.planTier }] }
      else s
  | .release slot =>
      match s.slots[slot]? with
      | none => s
      | some x =>
          if x.released then s
          else
            { s with
              slots := s.slots.set slot x.marked
              releasing := x.tenantId :: s.releasing }
  | .lockRelease tenantId =>
      if tenantId ∈ s.releasing then
        { s with
          limiter := lockedRelease s.limiter tenantId
          releasing := s.releasing.erase tenantId }
      else s

def idleLimiter (limits : OrderedDict String Int) : LimiterRun where
  limiter := ⟨limits, .empty⟩
  acquiring := []
  slots := []
  releasing := []

/-- The slots of a tenant that are acquired and not released yet: nobody has called release,
or the call is still waiting for the lock. -/
def LimiterRun.held (s : LimiterRun) (t : String) : Nat :=
  s.slots.countP (fun x => x.tenantId = t && !x.released) + s.releasing.count t

def CountsHeld (s : LimiterRun) : Prop :=
  ∀ t, activeCount s.limiter t = s.held t

/-- The tenant whose counter a step may change. -/
def LimiterStep.tenant : LimiterStep → Option String
  | .acquire _ _ => none
  | .lockAcquire call => some call.tenantId
  | .release _ => none
  | .lockRelease tenantId => some tenantId

structure LimiterLaw (s : LimiterRun) (a : LimiterStep) : Prop where
  /-- A slot is handed out only below the cap. -/
  below : ∀ slot, (limiterStep s a).slots = s.slots ++ [slot] →
    activeCount s.limiter slot.tenantId < capFor s.limiter slot.planTier
  nonneg : ∀ t, 0 ≤ activeCount (limiterStep s a).limiter t
  others : ∀ t, a.tenant ≠ some t →
    activeCount (limiterStep s a).limiter t = activeCount s.limiter t

structure LimiterInv (s : LimiterRun) : Prop where
  counts : CountsHeld s
  caps : ∀ call ∈ s.acquiring, call.cap = capFor s.limiter call.planTier

variable {s : LimiterRun}

theorem limiterStep_lockAcquire {call : PendingAcquire} (hcall : call ∈ s.acquiring) :
    limiterStep s (.lockAcquire call) = { s with acquiring := s.acquiring.erase call } ∨
    ∃ limiter, activeCount s.limiter call.tenantId < call.cap ∧
      limiter.limits = s.limiter.limits ∧
      (∀ t, activeCount limiter t =
        if t = call.tenantId then activeCount s.limiter call.tenantId + 1
        else activeCount s.limiter t) ∧
      limiterStep s (.lockAcquire call) =
        { s with
          limiter := limiter
          acquiring := s.acquiring.erase call
          slots := s.slots ++ [⟨call.tenantId, call.planTier, false⟩] } := by
  rw [limiterStep, if_pos hcall]
  cases lockedAcquire_cases s.limiter call.tenantId call.planTier call.cap with
  | inl hrefused =>
      rw [hrefused.2]
      exact .inl rfl
  | inr hadmitted =>
      obtain ⟨limiter, hbelow, hlocked, hlimits, hcount⟩ := hadmitted
      rw [hlocked]
      exact .inr ⟨limiter, hbelow, hlimits, hcount, rfl⟩

theorem limiterStep_release (slot : Nat) :
    limiterStep s (.release slot) = s ∨
    ∃ x, s.slots[slot]? = some x ∧ x.released = false ∧
      limiterStep s (.release slot) =
        { s with
          slots := s.slots.set slot x.marked
          releasing := x.tenantId :: s.releasing } := by
  rw [limiterStep]
  cases hslot : s.slots[slot]? with
  | none => exact .inl rfl
  | some x =>
      cases hreleased : x.released with
      | true => exact .inl (if_pos hreleased)
      | false => exact .inr ⟨x, rfl, hreleased, if_neg (by rw [hreleased]; decide)⟩

theorem capFor_congr {l l' : ConnectionLimiter} (h : l'.limits = l.limits) (planTier : String) :
    capFor l' planTier = capFor l planTier := by
  rw [capFor, capFor, h]

theorem held_admitted (limiter : ConnectionLimiter) (acquiring : List PendingAcquire)
    (tenantId planTier t : String) :
    LimiterRun.held { s with
      limiter := limiter
      acquiring := acquiring
      slots := s.slots ++ [⟨tenantId, planTier, false⟩] } t =
      s.held t + if t = tenantId then 1 else 0 := by
  rw [LimiterRun.held, LimiterRun.held]
  dsimp only
  rw [List.countP_append, List.countP_singleton]
  by_cases ht : t = tenantId
  · simp [ht]
    omega
  · simp [ht, Ne.symm ht]

theorem held_flagged {slot : Nat} {x : AcquiredSlot} (hslot : s.slots[slot]? = some x)
    (hreleased : x.released = false) (t : String) :
    LimiterRun.held { s with
      slots := s.slots.set slot x.marked
      releasing := x.tenantId :: s.releasing } t = s.held t := by
  have hmarked : (decide (x.marked.tenantId = t) && !x.marked.released) = false :=
    Bool.and_false _
  rw [LimiterRun.held, LimiterRun.held]
  dsimp only
  by_cases ht : x.tenantId = t
  · have hless := countP_set_add_one (p := fun y => y.tenantId = t && !y.released) hslot
      (by simp [ht, hreleased]) hmarked
    rw [ht, List.count_cons_self, ← hless]
    omega
  · rw [List.count_cons_of_ne ht, countP_set_of_eq hslot]
    rw [hmarked, decide_eq_false ht, Bool.false_and]

theorem held_released {tenantId : String} (hmem : tenantId ∈ s.releasing)
    (limiter : ConnectionLimiter) (t : String) :
    LimiterRun.held { s with
      limiter := limiter
      releasing := s.releasing.erase tenantId } t + (if t = tenantId then 1 else 0) =
      s.held t := by
  have hpos : 0 < s.releasing.count tenantId := List.count_pos_iff.mpr hmem
  rw [LimiterRun.held, LimiterRun.held]
  dsimp only
  by_cases ht : t = tenantId
  · rw [if_pos ht, ht, List.count_erase_self]
    omega
  · rw [if_neg ht, List.count_erase_of_ne ht, Nat.add_zero]

theorem LimiterInv.step (h : LimiterInv s) (a : LimiterStep) : LimiterInv (limiterStep s a) := by
  cases a with
  | acquire tenantId planTier =>
      rw [limiterStep]
      by_cases hcap : capFor s.limiter planTier ≤ 0
      · rw [if_pos hcap]
        exact h
      · rw [if_neg hcap]
        refine ⟨h.counts, ?_⟩
        intro call hcall
        cases List.mem_append.mp hcall with
        | inl hold => exact h.caps call hold
        | inr hnew => rw [List.mem_singleton.mp hnew]
  | lockAcquire call =>
      by_cases hcall : call ∈ s.acquiring
      · cases limiterStep_lockAcquire hcall with
        | inl hrefused =>
            rw [hrefused]
            exact ⟨h.counts, fun c hc => h.caps c (List.mem_of_mem_erase hc)⟩
        | inr hadmitted =>
            obtain ⟨limiter, hbelow, hlimits, hcount, heq⟩ := hadmitted
            rw [heq]
            refine ⟨?_, ?_⟩
            · intro t
              rw [held_admitted]
              dsimp only
              rw [hcount t]
              by_cases ht : t = call.tenantId
              · rw [if_pos ht, if_pos ht, ← ht, h.counts t]
                rfl
              · rw [if_neg ht, if_neg ht]
                exact h.counts t
            · intro c hc
              rw [capFor_congr hlimits]
              exact h.caps c (List.mem_of_mem_erase hc)
      · rw [limiterStep, if_neg hcall]
        exact h
  | release slot =>
      cases limiterStep_release (s := s) slot with
      | inl hkept =>
          rw [hkept]
          exact h
      | inr hflagged =>
          obtain ⟨x, hslot, hreleased, heq⟩ := hflagged
          rw [heq]
          refine ⟨?_, h.caps⟩
          intro t
          rw [held_flagged hslot hreleased]
          exact h.counts t
  | lockRelease tenantId =>
      rw [limiterStep]
      by_cases hmem : tenantId ∈ s.releasing
      · rw [if_pos hmem]
        refine ⟨?_, ?_⟩
        · intro t
          have hheld := held_released hmem (lockedRelease s.limiter tenantId) t
          have hold := h.counts t
          have hself := h.counts tenantId
          dsimp only
          rw [activeCount_lockedRelease]
          by_cases ht : t = tenantId
          · rw [if_pos ht] at hheld ⊢
            rw [ht] at hheld ⊢
            omega
          · rw [if_neg ht] at hheld ⊢
            omega
        · intro call hcall
          rw [capFor_congr (limits_lockedRelease s.limiter tenantId)]
          exact h.caps call hcall
      · rw [if_neg hmem]
        exact h

theorem limiterInv_idle (limits : OrderedDict String Int) : LimiterInv (idleLimiter limits) where
  counts _ := rfl
  caps call hcall := by cases hcall

theorem LimiterInv.law (h : LimiterInv s) (a : LimiterStep) : LimiterLaw s a where
  below slot hslots := by
    have hne : s.slots ≠ s.slots ++ [slot] := by
      intro heq
      have hlength := congrArg List.length heq
      rw [List.length_append, List.length_singleton] at hlength
      omega
    cases a with
    | acquire tenantId planTier =>
        rw [limiterStep] at hslots
        by_cases hcap : capFor s.limiter planTier ≤ 0
        · rw [if_pos hcap] at hslots
          exact absurd hslots hne
        · rw [if_neg hcap] at hslots
          exact absurd hslots hne
    | lockAcquire call =>
        by_cases hcall : call ∈ s.acquiring
        · cases limiterStep_lockAcquire hcall with
          | inl hrefused =>
              rw [hrefused] at hslots
              exact absurd hslots hne
          | inr hadmitted =>
              obtain ⟨limiter, hbelow, -, -, heq⟩ := hadmitted
              rw [heq] at hslots
              have hslot := List.append_cancel_left hslots
              rw [List.cons.injEq] at hslot
              rw [← hslot.1, ← h.caps call hcall]
              exact hbelow
        · rw [limiterStep, if_neg hcall] at hslots
          exact absurd hslots hne
    | release i =>
        cases limiterStep_release (s := s) i with
        | inl hkept =>
            rw [hkept] at hslots
            exact absurd hslots hne
        | inr hflagged =>
            obtain ⟨x, -, -, heq⟩ := hflagged
            rw [heq] at hslots
            have hlength := congrArg List.length hslots
            rw [List.length_set, List.length_append, List.length_singleton] at hlength
            omega
    | lockRelease tenantId =>
        rw [limiterStep] at hslots
        by_cases hmem : tenantId ∈ s.releasing
        · rw [if_pos hmem] at hslots
          exact absurd hslots hne
        · rw [if_neg hmem] at hslots
          exact absurd hslots hne
  nonneg t := by
    rw [(h.step a).counts t]
    exact Int.natCast_nonneg _
  others t ht := by
    cases a with
    | acquire tenantId planTier =>
        rw [limiterStep]
        by_cases hcap : capFor s.limiter planTier ≤ 0
        · rw [if_pos hcap]
        · rw [if_neg hcap]
    | lockAcquire call =>
        have hne : t ≠ call.tenantId := fun heq => ht (by rw [heq]; rfl)
        by_cases hcall : call ∈ s.acquiring
        · cases limiterStep_lockAcquire hcall with
          | inl hrefused => rw [hrefused]
          | inr hadmitted =>
              obtain ⟨limiter, -, -, hcount, heq⟩ := hadmitted
              rw [heq]
              exact (hcount t).trans (if_neg hne)
        · rw [limiterStep, if_neg hcall]
    | release i =>
        cases limiterStep_release (s := s) i with
        | inl hkept => rw [hkept]
        | inr hflagged =>
            obtain ⟨x, -, -, heq⟩ := hflagged
            rw [heq]
    | lockRelease tenantId =>
        have hne : t ≠ tenantId := fun heq => ht (by rw [heq]; rfl)
        rw [limiterStep]
        by_cases hmem : tenantId ∈ s.releasing
        · rw [if_pos hmem]
          exact (activeCount_lockedRelease t).trans (if_neg hne)
        · rw [if_neg hmem]

/-- For any limits and any order of the steps of any calls, the counters are the numbers of
slots that are held, and every step obeys the law. -/
theorem limiter_counts_held (limits : OrderedDict String Int) (run : List LimiterStep) :
    Always limiterStep CountsHeld (idleLimiter limits) run ∧
      AllSteps limiterStep LimiterLaw (idleLimiter limits) run :=
  always_and_allSteps_of_invariant (fun _ a h => h.step a) (fun _ h => h.counts)
    (fun _ a h => h.law a) (limiterInv_idle limits) run

end Engramia.Mcp
