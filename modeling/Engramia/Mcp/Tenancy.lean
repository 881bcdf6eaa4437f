import Engramia.Billing.Subscription
import Engramia.Keys.Store
import Engramia.Mcp.Handler

/-!
Requests to the hosted MCP server with their authentication, the billing data behind them
and the tool calls they carry. A request is authenticated when it arrives, by what its bearer
token stands for at the time; a tool call runs in the session that the SDK finds by the
session id of its request, with the context that was authenticated when the session was
opened. Quotas are left out.
-/
namespace Engramia.Mcp
open Engramia.Library Engramia.Keys Engramia.Billing

/-- The context that `_db_auth` attaches to a request. -/
def dbAuth (row : AuthRow) : AuthContext where
  keyId := row.id
  tenantId := row.tenantId
  projectId := row.projectId
  role := row.role
  maxPatterns := row.maxPatterns
  scope := ⟨row.tenantId, row.projectId⟩

inductive ToolOutcome where
  | notFound (name : String)
  | tierBlocked (currentTier requiredTier : String)
  | denied (tool requiredPermission : String) (role : Role)
  | ran (scope : Scope)
deriving DecidableEq

/-- `_call_tool`, with the context of its session. -/
def callTool (auth : AuthContext) (name : String) : ToolOutcome :=
  match getEntry name with
  | none => .notFound name
  | some entry =>
      if ¬ tierSatisfies auth.planTier entry.minTier then
        .tierBlocked auth.planTier entry.minTier
      else if ¬ auth.role.permits entry.permission then
        .denied name entry.permission auth.role
      else .ran auth.scope

/-- The session of a request: by its session id, or the one it has opened itself. -/
def sessionOf (s : McpHost) (x : Exchange) : Option SessionInit :=
  match x.sessionId with
  | some id => (s.exchanges.find? fun y => y.session = .live id).bind Exchange.init
  | none => if x.session = .absent then none else x.init

/-- A tool call: by whom its request was authenticated, the tier of that tenant at the time,
the context it ran with and how it went. -/
structure ToolRun where
  requester : AuthContext
  tier : String
  used : AuthContext
  outcome : ToolOutcome
deriving DecidableEq

/-- Whether a new session was admitted, with the tier of the tenant at the time. -/
structure Admission where
  tier : String
  admitted : Bool
deriving DecidableEq

structure HostedMcp where
  host : McpHost
  billing : World
  keys : String → Option AuthRow
  admissions : List Admission
  calls : List ToolRun

inductive HostedStep where
  | setBilling (billing : World)
  | setKeys (keys : String → Option AuthRow)
  | request (token : String) (sessionId : Option String) (method : String)
  | sdk (a : SdkStep)
  | call (exchange : Nat) (name : String)

/-- The tier of a tenant's subscription. -/
def HostedMcp.tier (s : HostedMcp) (tenantId : String) : String :=
  (effectivePlan s.billing tenantId).tier

def HostedMcp.arrive (s : HostedMcp) (row : AuthRow) (sessionId : Option String)
    (method : String) : HostedMcp :=
  let done := handler s.host (some (dbAuth row)) sessionId method
  { s with
    host := done.1
    admissions :=
      if sessionId = none ∧ method = "POST" then
        s.admissions ++ [{ tier := s.tier row.tenantId, admitted := done.2 = .delegated }]
      else s.admissions }

/-- A request with a tool call that finds its session. -/
def HostedMcp.run (s : HostedMcp) (x : Exchange) (name : String) : HostedMcp :=
  match x.auth, sessionOf s.host x with
  | some requester, some init =>
      { s with
        calls := s.calls ++
          [{ requester := requester
             tier := s.tier requester.tenantId
             used := init.auth
             outcome := callTool init.auth name }] }
  | _, _ => s

def hostedStep (s : HostedMcp) : HostedStep → HostedMcp
  | .setBilling billing => { s with billing := billing }
  | .setKeys keys => { s with keys := keys }
  | .request token sessionId method =>
      match s.keys token with
      | none => s
      | some row => s.arrive row sessionId method
  | .sdk a => { s with host := sdkStep s.host a }
  | .call i name =>
      match s.host.exchanges[i]? with
      | none => s
      | some x => if x.handling then s.run x name else s

def freshlyMounted (limits : OrderedDict String Int) (billing : World)
    (keys : String → Option AuthRow) : HostedMcp :=
  ⟨freshHost limits, billing, keys, [], []⟩

/-- A tool call ran with what its requester is entitled to. -/
def ToolRun.Own (c : ToolRun) : Prop :=
  c.used.scope = c.requester.scope ∧ c.used.role = c.requester.role ∧ c.used.planTier = c.tier

/-- A session is admitted exactly for the tiers that may open one. -/
def Admission.ByTier (d : Admission) : Prop :=
  d.admitted = true ↔ tierSatisfies d.tier minTierForHostedMcp = true

def OwnContext (s : HostedMcp) : Prop :=
  (∀ c ∈ s.calls, c.Own) ∧ ∀ d ∈ s.admissions, d.ByTier

/-- Whoever asks for a new session has a tier that may not open one. -/
def BelowHosted (s : HostedMcp) : HostedStep → Prop
  | .request token sessionId method => sessionId = none → method = "POST" →
      ∀ row ∈ s.keys token, tierSatisfies (s.tier row.tenantId) minTierForHostedMcp = false
  | _ => True

/-- No session is open. -/
structure NoSession (s : HostedMcp) : Prop where
  inits : ∀ x ∈ s.host.exchanges, x.init = none
  calls : s.calls = []

variable {s : HostedMcp}

theorem sessionOf_eq_none {host : McpHost} (h : ∀ x ∈ host.exchanges, x.init = none)
    {x : Exchange} (hx : x.init = none) : sessionOf host x = none := by
  rw [sessionOf]
  cases x.sessionId with
  | none =>
      by_cases habsent : x.session = .absent
      · exact if_pos habsent
      · exact (if_neg habsent).trans hx
  | some id =>
      cases hfind : host.exchanges.find? fun y => y.session = .live id with
      | none => exact congrArg (Option.bind · Exchange.init) hfind
      | some y =>
          have hy := h y (List.mem_of_find?_eq_some hfind)
          exact (congrArg (Option.bind · Exchange.init) hfind).trans hy

theorem handler_dbAuth (host : McpHost) (row : AuthRow) :
    handler host (some (dbAuth row)) none "POST" = (host, tierTooLow "developer") := by
  have htier : ¬ tierSatisfies (dbAuth row).planTier minTierForHostedMcp = true := by
    change ¬ tierSatisfies "developer" minTierForHostedMcp = true
    decide
  rw [handler, if_neg (not_not_intro ⟨rfl, rfl⟩), if_pos htier]
  rfl

theorem handler_dbAuth_of_not_new (host : McpHost) (row : AuthRow) {sessionId : Option String}
    {method : String} (h : ¬ (sessionId = none ∧ method = "POST")) :
    handler host (some (dbAuth row)) sessionId method =
      (host.delegate (some (dbAuth row)) sessionId none, .delegated) := by
  rw [handler]
  exact if_pos h

theorem init_change {host : McpHost} (h : ∀ x ∈ host.exchanges, x.init = none) (i : Nat)
    {f : ConnectionLimiter → Exchange → ConnectionLimiter × Exchange}
    (hf : ∀ l x, x.init = none → (f l x).2.init = none) :
    ∀ x ∈ (host.change i f).exchanges, x.init = none := by
  rw [McpHost.change]
  cases hx : host.exchanges[i]? with
  | none => exact h
  | some x => exact forall_mem_set h (hf _ x (h x (List.mem_of_getElem? hx)))

theorem init_sdkStep {host : McpHost} (h : ∀ x ∈ host.exchanges, x.init = none) (a : SdkStep) :
    ∀ x ∈ (sdkStep host a).exchanges, x.init = none := by
  cases a with
  | spawn i id => exact init_change h i fun _ x hx => (x.spawn_keeps id).1.trans hx
  | enter i => exact init_change h i fun _ x hx => x.enter_keeps.1.trans hx
  | fail i => exact init_change h i fun _ x hx => x.fail_cases.1.trans hx
  | respond i => exact init_change h i fun _ x hx => x.respond_cases.1.trans hx
  | close i =>
      apply init_change h i
      intro l x hx
      rw [closeSession]
      cases x.session with
      | live id =>
          rw [hx]
          rfl
      | _ => exact hx

theorem NoSession.step (h : NoSession s) (a : HostedStep) : NoSession (hostedStep s a) := by
  cases a with
  | setBilling billing => exact ⟨h.inits, h.calls⟩
  | setKeys keys => exact ⟨h.inits, h.calls⟩
  | request token sessionId method =>
      rw [hostedStep]
      cases s.keys token with
      | none => exact h
      | some row =>
          dsimp only
          rw [HostedMcp.arrive]
          refine ⟨?_, h.calls⟩
          by_cases hnew : sessionId = none ∧ method = "POST"
          · rw [hnew.1, hnew.2, handler_dbAuth]
            exact h.inits
          · rw [handler_dbAuth_of_not_new s.host row hnew]
            exact forall_mem_append_singleton h.inits rfl
  | sdk a => exact ⟨init_sdkStep h.inits a, h.calls⟩
  | call i name =>
      rw [hostedStep]
      cases hx : s.host.exchanges[i]? with
      | none => exact h
      | some x =>
          dsimp only
          by_cases hhandling : x.handling = true
          · rw [if_pos hhandling, HostedMcp.run]
            rw [sessionOf_eq_none h.inits (h.inits x (List.mem_of_getElem? hx))]
            cases x.auth with
            | none => exact h
            | some requester => exact h
          · rw [if_neg hhandling]
            exact h

theorem ownContext_step_iff (hnone : NoSession s) (h : OwnContext s) (a : HostedStep) :
    OwnContext (hostedStep s a) ↔ BelowHosted s a := by
  have hcalls : ∀ c ∈ (hostedStep s a).calls, c.Own := by
    intro c hc
    rw [(hnone.step a).calls] at hc
    cases hc
  rw [OwnContext, and_iff_right hcalls]
  cases a with
  | setBilling billing => exact iff_of_true h.2 trivial
  | setKeys keys => exact iff_of_true h.2 trivial
  | request token sessionId method =>
      rw [hostedStep, BelowHosted]
      cases hkey : s.keys token with
      | none => exact iff_of_true h.2 fun _ _ row hrow => by cases hrow
      | some row =>
          dsimp only
          rw [HostedMcp.arrive]
          by_cases hnew : sessionId = none ∧ method = "POST"
          · rw [hnew.1, hnew.2, handler_dbAuth, if_pos ⟨rfl, rfl⟩]
            have hreply : decide (tierTooLow "developer" = .delegated) = false := rfl
            rw [hreply]
            constructor
            · intro hall _ _ row' hrow'
              cases hrow'
              have hlast := hall _ (List.mem_append_right _ (List.mem_singleton_self _))
              rw [Admission.ByTier] at hlast
              cases htier : tierSatisfies (s.tier row.tenantId) minTierForHostedMcp with
              | true => exact absurd (hlast.mpr htier) Bool.false_ne_true
              | false => rfl
            · intro hguard
              have htier := hguard rfl rfl row rfl
              apply forall_mem_append_singleton h.2
              rw [Admission.ByTier, htier]
          · rw [if_neg hnew]
            exact iff_of_true h.2 fun hid hpost => absurd ⟨hid, hpost⟩ hnew
  | sdk a => exact iff_of_true h.2 trivial
  | call i name =>
      refine iff_of_true ?_ trivial
      rw [hostedStep]
      cases hx : s.host.exchanges[i]? with
      | none => exact h.2
      | some x =>
          dsimp only
          by_cases hhandling : x.handling = true
          · rw [if_pos hhandling, HostedMcp.run]
            rw [sessionOf_eq_none hnone.inits (hnone.inits x (List.mem_of_getElem? hx))]
            cases x.auth with
            | none => exact h.2
            | some requester => exact h.2
          · rw [if_neg hhandling]
            exact h.2

/-- In a run every tool call has its requester's context and sessions are admitted by tier if
and only if no tenant of a hosted tier ever asks for a session. -/
theorem own_context_iff (limits : OrderedDict String Int) (billing : World)
    (keys : String → Option AuthRow) (run : List HostedStep) :
    Always hostedStep OwnContext (freshlyMounted limits billing keys) run ↔
      AllSteps hostedStep BelowHosted (freshlyMounted limits billing keys) run := by
  apply always_iff_allSteps_of_invariant (I := NoSession)
  · intro s a h
    exact h.step a
  · intro s a hnone h
    exact ownContext_step_iff hnone h a
  · refine ⟨?_, rfl⟩
    intro x hx
    cases hx
  · refine ⟨?_, ?_⟩
    · intro c hc
      cases hc
    · intro d hd
      cases hd

section Sample

theorem noSubscriptions_valid : SubscriptionsValid [] := by decide

/-- One tenant on the team plan. -/
def teamBilling : World where
  tenants := [⟨"acme", some "team"⟩]
  subscriptions := []
  overageSettings := []
  usageCounters := []
  processedEvents := []
  invoiceItems := []
  valid := noSubscriptions_valid

def acmeKey (token : String) : Option AuthRow :=
  if token = "key-1" then some ⟨"key-1", "acme", "default", .owner, none⟩ else none

/-- A tenant on the team plan is turned away. -/
theorem team_rejected :
    ¬ Always hostedStep OwnContext (freshlyMounted defaultTierLimits teamBilling acmeKey)
      [.request "key-1" none "POST"] := by
  apply not_always_of_last
  intro h
  have hadmission : Admission.ByTier ⟨"team", false⟩ := h.2 _ (by decide +kernel)
  revert hadmission
  rw [Admission.ByTier]
  decide

end Sample

end Engramia.Mcp
