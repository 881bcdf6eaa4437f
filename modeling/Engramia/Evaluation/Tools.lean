import Engramia.Billing.Metering

/-!
The hosted MCP tool call: catalog lookup, tier gate, permission, quota, then
the shared dispatch into `Memory`. How the dispatched operation ends is the
environment's choice.
-/
namespace Engramia.Evaluation

open Engramia.Billing

def readerPerms : List String :=
  ["health", "metrics", "recall", "feedback:read", "skills:search", "jobs:list", "jobs:read",
    "analytics:read"]

def editorPerms : List String :=
  readerPerms ++
    ["learn", "evaluate", "compose", "evolve", "analyze_failures", "skills:register", "aging",
      "feedback:decay", "jobs:cancel", "patterns:delete_own", "analytics:rollup"]

def adminPerms : List String :=
  editorPerms ++
    ["patterns:delete", "import", "export", "keys:create", "keys:list", "keys:revoke",
      "keys:rotate", "governance:read", "governance:write", "governance:admin",
      "governance:delete", "audit:read", "billing:read", "billing:manage", "credentials:read",
      "credentials:write", "credentials:role_models:write",
      "credentials:failover_chain:write", "credentials:role_cost_limits:write"]

/-- `PERMISSIONS.get(role, frozenset())`. -/
def permissions (role : String) : List String :=
  if role = "reader" then readerPerms
  else if role = "editor" then editorPerms
  else if role = "admin" then adminPerms
  else if role = "owner" then ["*"]
  else []

def permits (role permission : String) : Bool :=
  (permissions role).contains "*" || (permissions role).contains permission

inductive QuotaKind where
  | evalRuns
  | patterns
  | none
deriving DecidableEq, Repr

structure ToolEntry where
  name : String
  permission : String
  minTier : String
  quotaKind : QuotaKind
deriving DecidableEq, Repr

/-- `ALL_TOOLS`. -/
def allTools : List ToolEntry :=
  [⟨"engramia_learn", "learn", "team", .patterns⟩,
   ⟨"engramia_recall", "recall", "team", .none⟩,
   ⟨"engramia_evaluate", "evaluate", "team", .evalRuns⟩,
   ⟨"engramia_feedback", "feedback:read", "team", .none⟩,
   ⟨"engramia_metrics", "metrics", "team", .none⟩,
   ⟨"engramia_aging", "aging", "team", .none⟩,
   ⟨"engramia_compose", "compose", "business", .none⟩,
   ⟨"engramia_evolve", "evolve", "business", .evalRuns⟩,
   ⟨"engramia_analyze_failures", "analyze_failures", "business", .none⟩]

def getEntry (name : String) : Option ToolEntry :=
  allTools.find? fun e => e.name = name

def tierRank : List (String × Int) :=
  [("developer", 0), ("pro", 1), ("team", 2), ("business", 3), ("enterprise", 4)]

/-- An unknown tier satisfies nothing, an unknown requirement is satisfied by
nothing. -/
def tierSatisfies (current required : String) : Bool :=
  (tierRank.lookup required).getD 99 ≤ (tierRank.lookup current).getD (-1)

structure AuthContext where
  tenantId : String
  role : String
  planTier : String
deriving DecidableEq, Repr

/-- The clock of a quota check and which of its reads fail. -/
structure CheckReads where
  clock : Clock
  subscription : SubscriptionReads
  overage : Bool
  count : Bool
deriving DecidableEq, Repr

/-- `BillingService.check_eval_runs`. -/
def billingCheckEvalRuns (reads : CheckReads) (w : World) (tenantId : String) :
    Except HttpError Unit :=
  checkEvalRuns reads.clock (getSubscription reads.subscription w tenantId)
    (getOverageSettings reads.overage w tenantId)
    (getCount reads.count w tenantId reads.clock.period)

/-- `BillingService.check_patterns`. -/
def billingCheckPatterns (reads : CheckReads) (w : World) (tenantId : String)
    (current : Nat) : Except HttpError Unit :=
  checkPatterns reads.clock (getSubscription reads.subscription w tenantId) current

/-- Why a tool call fails, with what its message is made of. -/
inductive ToolError where
  | notFound (name : String)
  | tierGate (currentTier requiredTier : String)
  | permission (tool requiredPermission role : String)
  | quota (error : HttpError)
  | failed (error : String)
deriving DecidableEq, Repr

/-- `patternCount` is what `memory.metrics.pattern_count` reads, `dispatched`
how `dispatch_to_memory` ends if it is reached. -/
structure ToolCall (J : Type) where
  name : String
  auth : AuthContext
  reads : CheckReads
  patternCount : Nat
  dispatched : Except String J

def enforceQuota {J : Type} (w : World) (call : ToolCall J) (entry : ToolEntry) :
    Except HttpError Unit :=
  match entry.quotaKind with
  | .none => .ok ()
  | .evalRuns => billingCheckEvalRuns call.reads w call.auth.tenantId
  | .patterns => billingCheckPatterns call.reads w call.auth.tenantId call.patternCount

/-- `_call_tool`. No branch of it writes to the billing tables. -/
def callTool {J : Type} (w : World) (call : ToolCall J) : Except ToolError J :=
  match getEntry call.name with
  | none => .error (.notFound call.name)
  | some entry =>
      if ¬ tierSatisfies call.auth.planTier entry.minTier then
        .error (.tierGate call.auth.planTier entry.minTier)
      else if ¬ permits call.auth.role entry.permission then
        .error (.permission call.name entry.permission call.auth.role)
      else
        match enforceQuota w call entry with
        | .error e => .error (.quota e)
        | .ok () =>
            match call.dispatched with
            | .ok result => .ok result
            | .error error => .error (.failed error)

end Engramia.Evaluation
