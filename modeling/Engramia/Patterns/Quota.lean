import Engramia.Evaluation.Tools
import Engramia.Library.OrderedDict
import Engramia.Library.Run
import Mathlib.Algebra.BigOperators.Group.List.Basic
import Mathlib.Data.List.Count

/-!
The pattern quota on its three ways in: the REST routes, the job that an import may
be handed to, and the hosted tool call. Every way first decides and writes
afterwards, one pattern at a time, and other requests run in between.

The patterns are those of one tenant, by project. A request that was let in stays in
hand until its last write.
-/
namespace Engramia.Patterns
open Engramia.Library Engramia.Billing Engramia.Evaluation

/-- `AuthContext`, as far as the quota reads it. -/
structure KeyContext where
  tenantId : String
  projectId : String
  maxPatterns : Option Nat
deriving DecidableEq

/-- `ENGRAMIA_PROJECT_QUOTA_PCT`: `int(limit * pct)` and `int(pct * 100)`. -/
structure ProjectShare where
  cap : Nat → Nat
  percent : Nat

/-- The 429 of `_check_quota`, with what its detail carries. -/
inductive QuotaError where
  | project (current limit : Nat) (detail : String)
  | tenant (error : HttpError)
  | key (current limit : Nat) (detail : String)

/-- The subscription is read once for the project cap and once for the plan. -/
structure QuotaReads where
  subscription : SubscriptionReads
  check : CheckReads

section Checks
variable (share : ProjectShare) (billing : Option World)

def projectQuotaReached (cap : Nat) : String :=
  s!"Project pattern quota reached ({cap} patterns, {share.percent}% of tenant limit). " ++
    "Delete old patterns or contact your admin to increase the project limit."

def keyQuotaReached : String :=
  "Pattern quota reached. Delete old patterns or upgrade your plan."

/-- `_check_quota` on the count of the current project. -/
def checkQuota (reads : QuotaReads) (auth : Option KeyContext) (count additional : Nat) :
    Except QuotaError Unit :=
  let current := count + additional
  match billing, auth with
  | some w, some auth =>
      let capped : Except QuotaError Unit :=
        match (getSubscription reads.subscription w auth.tenantId).patternsLimit with
        | some limit =>
            if share.cap limit ≤ current then
              .error (.project current (share.cap limit) (projectQuotaReached share (share.cap limit)))
            else .ok ()
        | none => .ok ()
      match capped with
      | .error e => .error e
      | .ok () =>
          match billingCheckPatterns reads.check w auth.tenantId current with
          | .error e => .error (.tenant e)
          | .ok () => .ok ()
  | _, auth =>
      match auth.bind KeyContext.maxPatterns with
      | none => .ok ()
      | some maxPatterns =>
          if maxPatterns ≤ current then .error (.key current maxPatterns keyQuotaReached)
          else .ok ()

/-- `_enforce_quota` for the pattern tools, on the count of the scope it runs in. -/
def enforcePatternQuota (reads : CheckReads) (auth : KeyContext) (current : Nat) :
    Except HttpError Unit :=
  match billing with
  | none => .ok ()
  | some w => billingCheckPatterns reads w auth.tenantId current

/-- The cap in force on a key's project. -/
def projectCap (auth : KeyContext) : Option Nat :=
  match billing with
  | some w => (getSubscription {} w auth.tenantId).patternsLimit.map share.cap
  | none => auth.maxPatterns

/-- The plan's limit on all patterns of a tenant. -/
def tenantLimit (tenantId : String) : Option Nat :=
  billing.bind fun w => (getSubscription {} w tenantId).patternsLimit

end Checks

structure PatternRow where
  projectId : String
  key : String
deriving DecidableEq

/-- What a request has yet to write. An import record without a key is one that
`import_data` passes over. -/
inductive Work where
  | learn
  | imports (records : List (Option String)) (overwrite : Bool)
deriving DecidableEq

/-- The most patterns the rest of the work can add. -/
def Work.size : Work → Nat
  | .learn => 1
  | .imports records _ => records.length

structure Request where
  auth : KeyContext
  work : Work
deriving DecidableEq

structure QuotaState where
  rows : List PatternRow
  inHand : OrderedDict Nat Request

/-- The scope a tool call counts: a project of the tenant, or one elsewhere. -/
inductive CountedScope where
  | project (projectId : String)
  | elsewhere (count : Nat)

inductive QuotaAction where
  | restLearn (id : Nat) (auth : KeyContext) (reads : QuotaReads)
  | restImport (id : Nat) (auth : KeyContext) (reads : QuotaReads)
      (records : List (Option String)) (overwrite : Bool)
  /-- A worker takes up an import that was accepted for later. -/
  | jobImport (id : Nat) (auth : KeyContext) (records : List (Option String)) (overwrite : Bool)
  | toolLearn (id : Nat) (auth : KeyContext) (reads : CheckReads) (counted : CountedScope)
  /-- The next write; a learned pattern goes under `learned`, if it is stored, and takes
  the place of the duplicate `replaced`, if it has one. -/
  | write (id : Nat) (learned replaced : Option String)

namespace QuotaState
variable (share : ProjectShare) (billing : Option World) (tenantId : String) (s : QuotaState)

def countPatterns (projectId : String) : Nat :=
  s.rows.countP fun row => row.projectId = projectId

def countedBy : CountedScope → Nat
  | .project projectId => s.countPatterns projectId
  | .elsewhere count => count

/-- The same patterns with other requests in hand. -/
def hold (inHand : OrderedDict Nat Request) : QuotaState :=
  { s with inHand := inHand }

/-- `save`, which overwrites a key that exists. -/
def savePattern (row : PatternRow) : QuotaState :=
  { s with rows := if row ∈ s.rows then s.rows else s.rows ++ [row] }

/-- `delete`, of a pattern that is replaced. -/
def deletePattern (projectId : String) : Option String → QuotaState
  | some key => { s with rows := s.rows.filter fun row => row ≠ ⟨projectId, key⟩ }
  | none => s

/-- The request a step lets in, if it does. -/
def letsIn : QuotaAction → Option (Nat × Request)
  | .restLearn id auth reads =>
      match checkQuota share billing reads (some auth) (s.countPatterns auth.projectId) 0 with
      | .ok () => some (id, ⟨auth, .learn⟩)
      | .error _ => none
  | .restImport id auth reads records overwrite =>
      match checkQuota share billing reads (some auth) (s.countPatterns auth.projectId)
          records.length with
      | .ok () => some (id, ⟨auth, .imports records overwrite⟩)
      | .error _ => none
  | .jobImport id auth records overwrite => some (id, ⟨auth, .imports records overwrite⟩)
  | .toolLearn id auth reads counted =>
      match enforcePatternQuota billing reads auth (s.countedBy counted) with
      | .ok () => some (id, ⟨auth, .learn⟩)
      | .error _ => none
  | .write _ _ _ => none

/-- One write of a request in hand. -/
def writeNext (id : Nat) (req : Request) (learned replaced : Option String) : QuotaState :=
  match req.work with
  | .learn =>
      let done := s.hold (s.inHand.discard (· = id))
      match learned with
      | some key =>
          (done.deletePattern req.auth.projectId replaced).savePattern ⟨req.auth.projectId, key⟩
      | none => done
  | .imports [] _ => s.hold (s.inHand.discard (· = id))
  | .imports (record :: records) overwrite =>
      let rest := s.hold (s.inHand.set id { req with work := .imports records overwrite })
      match record with
      | none => rest
      | some key =>
          if overwrite = false ∧ ⟨req.auth.projectId, key⟩ ∈ s.rows then rest
          else rest.savePattern ⟨req.auth.projectId, key⟩

/-- A request id is used once at a time, and every request is the tenant's. -/
def takeIn : Option (Nat × Request) → QuotaState
  | some (id, req) =>
      if (s.inHand.get? id).isNone ∧ req.auth.tenantId = tenantId then
        s.hold (s.inHand.set id req)
      else s
  | none => s

def step (a : QuotaAction) : QuotaState :=
  match a with
  | .write id learned replaced =>
      match s.inHand.get? id with
      | some req => s.writeNext id req learned replaced
      | none => s
  | _ => s.takeIn tenantId (s.letsIn share billing a)

end QuotaState

end Engramia.Patterns
