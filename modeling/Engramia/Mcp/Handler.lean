import Engramia.Mcp.TierGate
import Engramia.Mcp.Tools

/-!
The request handler of the hosted MCP server and the lifespan of its sessions. The SDK's
session manager is outside: for a request without a session id it may start the task of a new
session, which takes the pending init of that request with it, and may enter the lifespan in
that task; it may answer, fail or end a session at any time. Audit records and metrics are
left out.

A request and the session that it brings forth are one exchange, so that the slot has one
place.
-/
namespace Engramia.Mcp
open Engramia.Library Engramia.Keys

structure Scope where
  tenantId : String
  projectId : String
deriving DecidableEq

structure AuthContext where
  keyId : String
  tenantId : String
  projectId : String
  role : Role
  maxPatterns : Option Int := none
  planTier : String := "developer"
  scope : Scope
deriving DecidableEq

structure SessionInit where
  auth : AuthContext
  slot : AcquiredSlot
deriving DecidableEq

/-- How far the session of an exchange has come. -/
inductive SessionPhase where
  | absent
  | spawned (id : String)
  | live (id : String)
  | ended
deriving DecidableEq

structure Exchange where
  auth : Option AuthContext
  sessionId : Option String
  init : Option SessionInit
  handling : Bool
  session : SessionPhase
deriving DecidableEq

structure McpHost where
  limiter : ConnectionLimiter
  exchanges : List Exchange

/-- What the handler does with a request. A `ValueError` of the limiter escapes. -/
inductive HandlerReply where
  | rejected (status : Nat) (error message : String)
  | raised (planTier : String)
  | delegated
deriving DecidableEq

def tierTooLow (current : String) : HandlerReply :=
  .rejected 402 "tier_too_low"
    ("Hosted MCP requires the " ++ minTierForHostedMcp ++
      " tier or higher. Your tenant is on the " ++ current ++
      " tier. Upgrade in the dashboard to enable hosted MCP.")

def limitReached (refusal : ConnectionLimitExceeded) : HandlerReply :=
  .rejected 429 "connection_limit_exceeded"
    ("Tenant connection limit reached (" ++ toString refusal.used ++ "/" ++
      toString refusal.cap ++ " for " ++ refusal.planTier ++ " tier).")

/-- The request goes to the SDK. -/
def McpHost.delegate (s : McpHost) (auth : Option AuthContext) (sessionId : Option String)
    (init : Option SessionInit) : McpHost :=
  { s with
    exchanges := s.exchanges ++
      [{ auth := auth
         sessionId := sessionId
         init := init
         handling := true
         session := .absent }] }

/-- A request that has passed authentication, up to the SDK. -/
def handler (s : McpHost) (auth : Option AuthContext) (sessionId : Option String)
    (method : String) : McpHost × HandlerReply :=
  let isNewSession := sessionId = none ∧ method = "POST"
  match auth with
  | none => (s.delegate none sessionId none, .delegated)
  | some context =>
      if ¬ isNewSession then (s.delegate (some context) sessionId none, .delegated)
      else if ¬ tierSatisfies context.planTier minTierForHostedMcp then
        (s, tierTooLow context.planTier)
      else
        match acquire s.limiter context.tenantId context.planTier with
        | .error (.noLimit planTier) => (s, .raised planTier)
        | .error (.exceeded refusal) => (s, limitReached refusal)
        | .ok (limiter, slot) =>
            ({ s with limiter := limiter }.delegate (some context) sessionId
                (some { auth := context, slot := slot }),
              .delegated)

/-- The SDK starts a task for a new session. -/
def Exchange.spawn (x : Exchange) (id : String) : Exchange :=
  if x.handling ∧ x.sessionId = none ∧ x.session = .absent then { x with session := .spawned id }
  else x

/-- The lifespan begins, or raises when there is no pending init. -/
def Exchange.enter (x : Exchange) : Exchange :=
  match x.session with
  | .spawned id => { x with session := if x.init.isSome then .live id else .ended }
  | _ => x

/-- The task ends before the lifespan begins. -/
def Exchange.fail (x : Exchange) : Exchange :=
  match x.session with
  | .spawned _ => { x with session := .ended }
  | _ => x

/-- `handle_request` returns or raises. -/
def Exchange.respond (x : Exchange) : Exchange :=
  { x with handling := false }

/-- An exchange whose session is over. -/
def Exchange.closed (x : Exchange) (init : Option SessionInit) : Exchange :=
  { x with
    session := .ended
    init := init }

/-- The lifespan ends, whichever way, and releases the slot. -/
def closeSession (l : ConnectionLimiter) (x : Exchange) : ConnectionLimiter × Exchange :=
  match x.session with
  | .live _ =>
      match x.init with
      | none => (l, x.closed none)
      | some init =>
          ((release l init.slot).1, x.closed (some { init with slot := (release l init.slot).2 }))
  | _ => (l, x)

/-- What the SDK does with an exchange. -/
inductive SdkStep where
  | spawn (exchange : Nat) (id : String)
  | enter (exchange : Nat)
  | fail (exchange : Nat)
  | respond (exchange : Nat)
  | close (exchange : Nat)

inductive McpStep where
  | request (auth : Option AuthContext) (sessionId : Option String) (method : String)
  | sdk (a : SdkStep)

/-- A step of one exchange. -/
def McpHost.change (s : McpHost) (i : Nat)
    (f : ConnectionLimiter → Exchange → ConnectionLimiter × Exchange) : McpHost :=
  match s.exchanges[i]? with
  | none => s
  | some x =>
      { limiter := (f s.limiter x).1
        exchanges := s.exchanges.set i (f s.limiter x).2 }

def sdkStep (s : McpHost) : SdkStep → McpHost
  | .spawn i id => s.change i fun l x => (l, x.spawn id)
  | .enter i => s.change i fun l x => (l, x.enter)
  | .fail i => s.change i fun l x => (l, x.fail)
  | .respond i => s.change i fun l x => (l, x.respond)
  | .close i => s.change i closeSession

def mcpStep (s : McpHost) : McpStep → McpHost
  | .request auth sessionId method => (handler s auth sessionId method).1
  | .sdk a => sdkStep s a

def freshHost (limits : OrderedDict String Int) : McpHost := ⟨⟨limits, .empty⟩, []⟩

def SessionPhase.inUse (handling : Bool) : SessionPhase → Bool
  | .absent => handling
  | .spawned _ => true
  | .live _ => true
  | .ended => false

/-- The request of an exchange is under way, or its session is. -/
def Exchange.inUse (x : Exchange) : Bool := x.session.inUse x.handling

def Exchange.hasSlotOf (x : Exchange) (t : String) : Bool :=
  x.init.any fun init => init.slot.tenantId = t

/-- A slot is released once its request and its session are over, and not before. -/
def Exchange.Settled (x : Exchange) : Prop :=
  ∀ init ∈ x.init, (init.slot.released = false ↔ x.inUse = true)

/-- No slot is leaked: every one is released exactly when its exchange is over, and a tenant
is counted with the exchanges that are not. -/
def NoLeak (s : McpHost) : Prop :=
  (∀ x ∈ s.exchanges, x.Settled) ∧
  ∀ t, activeCount s.limiter t = s.exchanges.countP fun x => x.hasSlotOf t && x.inUse

/-- The SDK enters the lifespan for every request that holds a slot: it neither answers such a
request before it has started a task, nor does the task end before the lifespan begins. -/
def EntersLifespan (s : McpHost) : SdkStep → Prop
  | .fail i => ∀ x ∈ s.exchanges[i]?, ∀ id, x.session = .spawned id → x.init = none
  | .respond i => ∀ x ∈ s.exchanges[i]?, x.handling = true → x.session = .absent → x.init = none
  | _ => True

def ServesRequests (s : McpHost) : McpStep → Prop
  | .request _ _ _ => True
  | .sdk a => EntersLifespan s a

section Changes
variable {s : McpHost} {x y : Exchange}

theorem Exchange.Settled.released_iff {init : SessionInit} (h : x.Settled)
    (hinit : x.init = some init) : init.slot.released = true ↔ x.inUse = false := by
  have hiff := h init hinit
  rw [← Bool.not_eq_false, hiff, Bool.not_eq_true]

theorem NoLeak.replace (h : NoLeak s) {i : Nat} (hx : s.exchanges[i]? = some x)
    (hy : y.Settled) (hcount : ∀ t, (y.hasSlotOf t && y.inUse) = (x.hasSlotOf t && x.inUse)) :
    NoLeak { s with exchanges := s.exchanges.set i y } := by
  refine ⟨forall_mem_set h.1 hy, ?_⟩
  intro t
  dsimp only
  rw [h.2 t, countP_set_of_eq hx (hcount t)]

theorem Exchange.Settled.of_inUse (h : x.Settled) (hinit : y.init = x.init)
    (huse : y.inUse = x.inUse) : y.Settled := by
  intro init hmem
  rw [huse]
  exact h init (hinit ▸ hmem)

theorem Exchange.settled_of_none (h : x.init = none) : x.Settled := by
  intro init hinit
  rw [h] at hinit
  cases hinit

theorem Exchange.hasSlotOf_of_none (h : x.init = none) (t : String) : x.hasSlotOf t = false := by
  rw [Exchange.hasSlotOf, h]
  rfl

theorem NoLeak.replace_of_inUse (h : NoLeak s) {i : Nat} (hx : s.exchanges[i]? = some x)
    (hinit : y.init = x.init) (huse : y.inUse = x.inUse) :
    NoLeak { s with exchanges := s.exchanges.set i y } := by
  apply h.replace hx
  · exact (h.1 x (List.mem_of_getElem? hx)).of_inUse hinit huse
  · intro t
    rw [huse, Exchange.hasSlotOf, Exchange.hasSlotOf, hinit]

theorem NoLeak.replace_of_none (h : NoLeak s) {i : Nat} (hx : s.exchanges[i]? = some x)
    (hinit : y.init = x.init) (hnone : x.init = none) :
    NoLeak { s with exchanges := s.exchanges.set i y } := by
  have hnone' : y.init = none := hinit.trans hnone
  apply h.replace hx (Exchange.settled_of_none hnone')
  intro t
  rw [Exchange.hasSlotOf_of_none hnone, Exchange.hasSlotOf_of_none hnone', Bool.false_and,
    Bool.false_and]

theorem not_noLeak_of_held {init : SessionInit} (h : x.Settled) (huse : x.inUse = true)
    (hinit : x.init = some init) (hinit' : y.init = x.init) (hover : y.inUse = false)
    {l : ConnectionLimiter} {i : Nat} (hx : s.exchanges[i]? = some x) :
    ¬ NoLeak { limiter := l, exchanges := s.exchanges.set i y } := by
  intro hleak
  obtain ⟨hlt, -⟩ := List.getElem?_eq_some_iff.mp hx
  have hy : y.Settled := hleak.1 y (List.mem_set hlt y)
  have hfree := (hy.released_iff (hinit'.trans hinit)).mpr hover
  rw [(h.released_iff hinit).mp hfree] at huse
  cases huse

/-- A step that keeps the init and may take an exchange out of use leaks a slot exactly if it
does so to one that has an init. -/
theorem NoLeak.replace_iff (h : NoLeak s) {i : Nat} (hx : s.exchanges[i]? = some x)
    (hinit : y.init = x.init) {ends : Prop}
    (hcases : y.inUse = x.inUse ∧ ¬ ends ∨ ends ∧ x.inUse = true ∧ y.inUse = false) :
    NoLeak { s with exchanges := s.exchanges.set i y } ↔ (ends → x.init = none) := by
  cases hcases with
  | inl hsame =>
      apply iff_of_true (h.replace_of_inUse hx hinit hsame.1)
      exact fun hends => absurd hends hsame.2
  | inr hended =>
      obtain ⟨hends, huse, hover⟩ := hended
      cases hnone : x.init with
      | none => exact iff_of_true (h.replace_of_none hx hinit hnone) fun _ => rfl
      | some init =>
          have hsettled := h.1 x (List.mem_of_getElem? hx)
          apply iff_of_false (not_noLeak_of_held hsettled huse hnone hinit hover hx)
          intro hguard
          cases hguard hends

theorem NoLeak.delegate (h : NoLeak s) (auth : Option AuthContext) (sessionId : Option String) :
    NoLeak (s.delegate auth sessionId none) := by
  refine ⟨forall_mem_append_singleton h.1 (Exchange.settled_of_none rfl), ?_⟩
  intro t
  rw [McpHost.delegate, List.countP_append]
  exact h.2 t

theorem NoLeak.arrive (h : NoLeak s) {limiter : ConnectionLimiter} {context : AuthContext}
    (sessionId : Option String) {tenantId : String} {planTier : String}
    (hcount : ∀ t, activeCount limiter t =
      if t = tenantId then activeCount s.limiter tenantId + 1 else activeCount s.limiter t) :
    NoLeak (({ s with limiter := limiter } : McpHost).delegate (some context) sessionId
      (some { auth := context, slot := { tenantId := tenantId, planTier := planTier } })) := by
  refine ⟨forall_mem_append_singleton h.1 ?_, ?_⟩
  · intro init hinit
    cases hinit
    exact iff_of_true rfl rfl
  · intro t
    have hold := h.2 t
    rw [McpHost.delegate, List.countP_append]
    dsimp only
    rw [hcount t]
    by_cases ht : t = tenantId
    · rw [if_pos ht, ← ht, hold]
      simp [Exchange.hasSlotOf, Exchange.inUse, SessionPhase.inUse, ht]
    · rw [if_neg ht, hold]
      simp [Exchange.hasSlotOf, Ne.symm ht]

theorem NoLeak.close (h : NoLeak s) {i : Nat} (hx : s.exchanges[i]? = some x) :
    NoLeak
      { limiter := (closeSession s.limiter x).1
        exchanges := s.exchanges.set i (closeSession s.limiter x).2 } := by
  have hmem : x ∈ s.exchanges := List.mem_of_getElem? hx
  rw [closeSession]
  cases hsession : x.session with
  | live id =>
      cases hinit : x.init with
      | none =>
          apply h.replace_of_none hx
          · exact hinit.symm
          · exact hinit
      | some init =>
          have huse : x.inUse = true := by
            rw [Exchange.inUse, hsession]
            rfl
          have hheld : init.slot.released = false := (h.1 x hmem init hinit).mpr huse
          have hrelease : release s.limiter init.slot =
              (lockedRelease s.limiter init.slot.tenantId, init.slot.marked) := by
            rw [release, hheld, if_neg Bool.false_ne_true]
          dsimp only
          rw [hrelease]
          refine ⟨forall_mem_set h.1 ?_, ?_⟩
          · intro init' hinit'
            cases hinit'
            exact iff_of_false Bool.noConfusion Bool.noConfusion
          · intro t
            have hold := h.2 t
            have hslot : x.hasSlotOf t = decide (init.slot.tenantId = t) := by
              rw [Exchange.hasSlotOf, hinit]
              rfl
            dsimp only
            rw [activeCount_lockedRelease]
            by_cases ht : t = init.slot.tenantId
            · subst ht
              have hmine : (x.hasSlotOf init.slot.tenantId && x.inUse) = true := by
                rw [hslot, huse, decide_eq_true rfl]
                rfl
              have hless := countP_set_add_one
                (p := fun z => z.hasSlotOf init.slot.tenantId && z.inUse)
                (y := x.closed (some { init with slot := init.slot.marked })) hx hmine
                (Bool.and_false _)
              rw [if_pos rfl, hold, ← hless]
              omega
            · have hother : (x.hasSlotOf t && x.inUse) = false := by
                rw [hslot, decide_eq_false (Ne.symm ht), Bool.false_and]
              rw [if_neg ht, hold]
              refine congrArg Nat.cast (countP_set_of_eq hx ?_).symm
              rw [hother]
              exact Bool.and_false _
  | _ => exact h.replace_of_inUse hx rfl rfl

end Changes

section Phases
variable (x : Exchange)

theorem Exchange.spawn_keeps (id : String) :
    (x.spawn id).init = x.init ∧ (x.spawn id).inUse = x.inUse := by
  rw [Exchange.spawn]
  by_cases hstart : x.handling ∧ x.sessionId = none ∧ x.session = .absent
  · rw [if_pos hstart]
    refine ⟨rfl, ?_⟩
    rw [Exchange.inUse, Exchange.inUse, hstart.2.2]
    exact hstart.1.symm
  · rw [if_neg hstart]
    exact ⟨rfl, rfl⟩

theorem Exchange.enter_keeps :
    x.enter.init = x.init ∧ (x.init = none ∨ x.enter.inUse = x.inUse) := by
  rw [Exchange.enter]
  cases hsession : x.session with
  | spawned id =>
      refine ⟨rfl, ?_⟩
      cases hinit : x.init with
      | none => exact .inl rfl
      | some init =>
          rw [Exchange.inUse, Exchange.inUse, hsession]
          exact .inr rfl
  | _ => exact ⟨rfl, .inr rfl⟩

theorem Exchange.fail_cases :
    x.fail.init = x.init ∧
      (x.fail.inUse = x.inUse ∧ ¬ (∃ id, x.session = .spawned id) ∨
        (∃ id, x.session = .spawned id) ∧ x.inUse = true ∧ x.fail.inUse = false) := by
  rw [Exchange.fail]
  cases hsession : x.session with
  | spawned id =>
      refine ⟨rfl, .inr ⟨⟨id, rfl⟩, ?_, rfl⟩⟩
      rw [Exchange.inUse, hsession]
      rfl
  | _ => exact ⟨rfl, .inl ⟨rfl, fun h => h.elim fun _ => SessionPhase.noConfusion⟩⟩

theorem Exchange.respond_cases :
    x.respond.init = x.init ∧
      (x.respond.inUse = x.inUse ∧ ¬ (x.handling = true ∧ x.session = .absent) ∨
        (x.handling = true ∧ x.session = .absent) ∧ x.inUse = true ∧
          x.respond.inUse = false) := by
  refine ⟨rfl, ?_⟩
  rw [Exchange.respond, Exchange.inUse, Exchange.inUse]
  cases hsession : x.session with
  | absent =>
      cases hhandling : x.handling with
      | true => exact .inr ⟨⟨rfl, rfl⟩, rfl, rfl⟩
      | false => exact .inl ⟨rfl, fun h => Bool.noConfusion h.1⟩
  | _ => exact .inl ⟨rfl, fun h => SessionPhase.noConfusion h.2⟩

end Phases

theorem noLeak_fresh (limits : OrderedDict String Int) : NoLeak (freshHost limits) := by
  refine ⟨?_, ?_⟩
  · intro x hx
    cases hx
  · intro t
    rfl

theorem handler_noLeak {s : McpHost} (h : NoLeak s) (auth : Option AuthContext)
    (sessionId : Option String) (method : String) :
    NoLeak (handler s auth sessionId method).1 := by
  cases auth with
  | none => exact h.delegate none sessionId
  | some context =>
      rw [handler]
      by_cases hnew : sessionId = none ∧ method = "POST"
      · rw [if_neg (not_not_intro hnew)]
        by_cases htier : tierSatisfies context.planTier minTierForHostedMcp = true
        · rw [if_neg (not_not_intro htier), acquire]
          by_cases hcap : capFor s.limiter context.planTier ≤ 0
          · simp only [if_pos hcap]
            exact h
          · simp only [if_neg hcap]
            cases lockedAcquire_cases s.limiter context.tenantId context.planTier
                (capFor s.limiter context.planTier) with
            | inl hrefused =>
                rw [hrefused.2]
                exact h
            | inr hadmitted =>
                obtain ⟨limiter, -, hlocked, -, hcount⟩ := hadmitted
                rw [hlocked]
                exact h.arrive sessionId hcount
        · rw [if_pos htier]
          exact h
      · rw [if_pos hnew]
        exact h.delegate (some context) sessionId

theorem noLeak_sdkStep_iff {s : McpHost} (h : NoLeak s) (a : SdkStep) :
    NoLeak (sdkStep s a) ↔ EntersLifespan s a := by
  cases a with
  | spawn i id =>
      refine iff_of_true ?_ trivial
      rw [sdkStep, McpHost.change]
      cases hx : s.exchanges[i]? with
      | none => exact h
      | some x =>
          obtain ⟨hinit, huse⟩ := x.spawn_keeps id
          exact h.replace_of_inUse hx hinit huse
  | enter i =>
      refine iff_of_true ?_ trivial
      rw [sdkStep, McpHost.change]
      cases hx : s.exchanges[i]? with
      | none => exact h
      | some x =>
          obtain ⟨hinit, hcases⟩ := x.enter_keeps
          cases hcases with
          | inl hnone => exact h.replace_of_none hx hinit hnone
          | inr huse => exact h.replace_of_inUse hx hinit huse
  | fail i =>
      rw [sdkStep, McpHost.change, EntersLifespan]
      cases hx : s.exchanges[i]? with
      | none => exact iff_of_true h fun x hmem => by cases hmem
      | some x =>
          obtain ⟨hinit, hcases⟩ := x.fail_cases
          apply (h.replace_iff hx hinit hcases).trans
          simp only [Option.mem_some_iff, forall_eq', forall_exists_index]
  | respond i =>
      rw [sdkStep, McpHost.change, EntersLifespan]
      cases hx : s.exchanges[i]? with
      | none => exact iff_of_true h fun x hmem => by cases hmem
      | some x =>
          obtain ⟨hinit, hcases⟩ := x.respond_cases
          apply (h.replace_iff hx hinit hcases).trans
          simp only [Option.mem_some_iff, forall_eq', and_imp]
  | close i =>
      refine iff_of_true ?_ trivial
      rw [sdkStep, McpHost.change]
      cases hx : s.exchanges[i]? with
      | none => exact h
      | some x => exact h.close hx

theorem noLeak_step_iff {s : McpHost} (h : NoLeak s) (a : McpStep) :
    NoLeak (mcpStep s a) ↔ ServesRequests s a := by
  cases a with
  | request auth sessionId method =>
      exact iff_of_true (handler_noLeak h auth sessionId method) trivial
  | sdk a => exact noLeak_sdkStep_iff h a

theorem NoLeak.activeCount_eq_zero {s : McpHost} (h : NoLeak s) {t : String}
    (hover : ∀ x ∈ s.exchanges, x.hasSlotOf t = true → x.inUse = false) :
    activeCount s.limiter t = 0 := by
  rw [h.2 t]
  refine congrArg Nat.cast (List.countP_eq_zero.mpr ?_)
  intro x hx hboth
  rw [Bool.and_eq_true] at hboth
  rw [hover x hx hboth.1] at hboth
  cases hboth.2

/-- In a run no slot is leaked if and only if the SDK enters the lifespan for every request
that holds one. -/
theorem slots_released_iff (limits : OrderedDict String Int) (run : List McpStep) :
    Always mcpStep NoLeak (freshHost limits) run ↔
      AllSteps mcpStep ServesRequests (freshHost limits) run :=
  always_iff_allSteps (P := NoLeak) (fun _ a h => noLeak_step_iff h a) (noLeak_fresh limits) run

section Sample

def teamOwner : AuthContext where
  keyId := "key-1"
  tenantId := "acme"
  projectId := "default"
  role := .owner
  planTier := "team"
  scope := ⟨"acme", "default"⟩

/-- The SDK answers a request without having started a session for it. -/
def answeredAtOnce : List McpStep :=
  [.request (some teamOwner) none "POST", .sdk (.respond 0)]

theorem slot_leaked : ¬ Always mcpStep NoLeak (freshHost defaultTierLimits) answeredAtOnce := by
  apply not_always_of_last
  intro h
  have hcount := h.2 "acme"
  revert hcount
  decide +kernel

end Sample

end Engramia.Mcp
