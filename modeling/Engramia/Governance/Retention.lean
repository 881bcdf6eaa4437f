import Engramia.Library.UtcStamp
import Engramia.Patterns.Learning

/-!
Retention. A pattern may carry an expiry of its own; for the others the project's, the
tenant's or the default number of days counts from when they were stored. There are two
ways to clean up a scope. Over a database the query looks at the expiry column alone;
otherwise every pattern is loaded and its timestamp compared with the policy. The law
both are to keep stands before them.
-/
namespace Engramia.Governance
open Engramia.Library Engramia.Storage Engramia.Patterns

structure TenantPolicy where
  id : String
  retentionDays : Option Int

structure ProjectPolicy where
  id : String
  tenantId : String
  retentionDays : Option Int

/-- The policy columns of the tables `tenants` and `projects`. -/
structure PolicyTables where
  tenants : List TenantPolicy
  projects : List ProjectPolicy

structure RetentionManager where
  engine : Option PolicyTables
  defaultDays : Int

def defaultRetentionDays : Int := 365

/-- The timestamp of a document: what compares with a number, or something else. -/
inductive Timestamp where
  | number (seconds : ℚ)
  | other
deriving DecidableEq

/-- A stored document, as far as the scan reads it. -/
inductive Document where
  | dict (timestamp : Option Timestamp)
  | list
deriving DecidableEq

/-- A row of a scope. Only a database has the column `expires_at`. -/
structure DataRow where
  data : Document
  expiresAt : Option UtcStamp
deriving DecidableEq

structure Store (V : Type) where
  isPostgres : Bool
  rows : OrderedDict Text DataRow
  embeddings : OrderedDict Text V

/-- The clock, and what `strftime` makes of it. -/
structure Instant where
  now : ℚ
  utc : UtcStamp
  utcFloor : utc.seconds = now.floor

structure PurgeResult where
  purgedCount : Nat
  dryRun : Bool
  purgedKeys : List Text
deriving DecidableEq

/-- What a document does to `data.get("timestamp", 0) > 0`. -/
inductive ScanError where
  | attributeError
  | typeError
deriving DecidableEq

section Law
variable (days : Int) (instant : Instant) (key : Text) (row : DataRow)

def isPattern : Bool := patternsPrefix.isPrefixOf key

/-- When a pattern was stored; the default of a missing timestamp stands for no time. -/
def DataRow.createdAt : Option ℚ :=
  match row.data with
  | .dict (some (.number seconds)) => if 0 < seconds then some seconds else none
  | _ => none

/-- The most specific setting decides. -/
def DataRow.effectiveExpiry : Option ℚ :=
  match row.expiresAt with
  | some stamp => some stamp.seconds
  | none => row.createdAt.map (· + days * 86400)

/-- Patterns to delete: those whose effective expiry has passed. -/
def Expired : Prop :=
  isPattern key = true ∧ ∃ expiry, row.effectiveExpiry days = some expiry ∧ expiry ≤ instant.now

end Law

namespace RetentionManager
variable (m : RetentionManager)

/-- The policy of a project, its tenant or the default. -/
def getPolicy (fails : Bool) (tenantId projectId : String) : Int :=
  match m.engine with
  | none => m.defaultDays
  | some tables =>
      if fails then m.defaultDays
      else
        match tables.projects.find? fun p => p.id = projectId ∧ p.tenantId = tenantId with
        | none => m.defaultDays
        | some project =>
            match tables.tenants.find? fun t => t.id = project.tenantId with
            | none => m.defaultDays
            | some tenant =>
                match project.retentionDays with
                | some days => days
                | none =>
                    match tenant.retentionDays with
                    | some days => days
                    | none => m.defaultDays

end RetentionManager

namespace Store
variable {V : Type} (days : Int) (instant : Instant) (dryRun : Bool) (s : Store V)

/-- `delete`: the row and its embedding. -/
def delete (key : Text) : Store V :=
  { s with
    rows := s.rows.discard (· = key)
    embeddings := s.embeddings.discard (· = key) }

def deleteAll (keys : List Text) : Store V :=
  keys.foldl delete s

/-- `PATTERNS_PREFIX`, without the slash. -/
def scanPrefix : Text := ['p', 'a', 't', 't', 'e', 'r', 'n', 's']

def listKeys : List Text :=
  ((s.rows.entries.map Prod.fst).filter scanPrefix.isPrefixOf).insertionSort (· ≤ ·)

/-- The query on the expiry column. -/
def expiredRows : List Text :=
  (s.rows.entries.filter fun x =>
    match x.2.expiresAt with
    | some stamp => stamp.text ≤ instant.utc.text && isPattern x.1
    | none => false).map Prod.fst

def purged (keys : List Text) : Store V × PurgeResult :=
  (if dryRun then s else s.deleteAll keys, ⟨keys.length, dryRun, keys⟩)

/-- `_apply_postgres`. -/
def applyPostgres : Store V × PurgeResult :=
  s.purged dryRun (s.expiredRows instant)

/-- Whether the scan takes a document to be outlived, if it can read it. -/
def outlived (document : Document) : Except ScanError Bool :=
  match document with
  | .list => .error .attributeError
  | .dict (some .other) => .error .typeError
  | .dict none => .ok false
  | .dict (some (.number seconds)) =>
      .ok (0 < seconds && seconds < instant.now - days * 86400)

def scanKey (key : Text) : Except ScanError Bool :=
  match s.rows.get? key with
  | none => .ok false
  | some row => outlived days instant row.data

/-- The keys the scan collects before it deletes any. -/
def scan : List Text → Except ScanError (List Text)
  | [] => .ok []
  | key :: keys =>
      match s.scanKey days instant key with
      | .error e => .error e
      | .ok old =>
          match scan keys with
          | .error e => .error e
          | .ok expired => .ok (if old then key :: expired else expired)

/-- `_apply_storage_scan`, under the policy it has read. -/
def applyStorageScan : Except ScanError (Store V × PurgeResult) :=
  match s.scan days instant s.listKeys with
  | .error e => .error e
  | .ok expired => .ok (s.purged dryRun expired)

end Store

/-- `RetentionManager.apply`. -/
def RetentionManager.apply {V : Type} (m : RetentionManager) (fails : Bool)
    (tenantId projectId : String) (instant : Instant) (dryRun : Bool) (s : Store V) :
    Except ScanError (Store V × PurgeResult) :=
  if m.engine.isSome && s.isPostgres then .ok (s.applyPostgres instant dryRun)
  else s.applyStorageScan (m.getPolicy fails tenantId projectId) instant dryRun

end Engramia.Governance
