import Engramia.Library.KeyedTable

/-!
Erasing a tenant. `ScopedDeletion` goes through the projects of the tenant that are not
yet marked deleted and clears the rows of each; it is what the confirmed request of a
user runs, after it has spent the token and before it removes the waitlist entries. An
admin who approves the same request spends the token and marks the user.

Statements succeed. Rows keep the columns that a statement names; the cache of API keys
holds the hashes that are let in without a look at the table.
-/
namespace Engramia.Governance
open Engramia.Library

/-- A row of `memory_data` or of `memory_embeddings`. -/
structure ScopedRow where
  tenantId : String
  projectId : String
  key : String
deriving DecidableEq

structure JobRow where
  id : String
  tenantId : String
  projectId : String
deriving DecidableEq

structure ApiKeyRow where
  keyHash : String
  tenantId : String
  projectId : String
  revokedAt : Option Int
  expiresAt : Option Int
deriving DecidableEq

structure CredentialRow where
  id : String
  tenantId : String
  status : String
deriving DecidableEq

structure DeletionResult where
  tenantId : String
  projectId : String
  patternsDeleted : Nat := 0
  embeddingsDeleted : Nat := 0
  jobsDeleted : Nat := 0
  keysRevoked : Nat := 0
  projectsDeleted : Nat := 0
  cloudUsersDeleted : Nat := 0
deriving DecidableEq

inductive AuditDetail where
  | deletion (result : DeletionResult) (reason : Option String)
  | other (text : String)
deriving DecidableEq

/-- A tenant-level event has no project. -/
structure AuditRow where
  tenantId : String
  projectId : Option String
  action : String
  actorUserId : Option String
  resourceType : Option String
  resourceId : Option String
  ipAddress : Option String
  detail : Option AuditDetail
deriving DecidableEq

structure ProjectRow where
  id : String
  tenantId : String
  deletedAt : Option Int
deriving DecidableEq

structure TenantRow where
  id : String
  deletedAt : Option Int
deriving DecidableEq

structure CloudUser where
  id : String
  tenantId : String
  email : String
  name : Option String
  passwordHash : Option String
  providerId : Option String
  deletedAt : Option Int
  deletionReason : Option String
deriving DecidableEq

structure DeletionRequest where
  tokenHash : String
  userId : String
  expiresAt : Int
  consumedAt : Option Int
  reason : Option String
deriving DecidableEq

structure WaitlistRow where
  email : String
  tenantId : Option String
deriving DecidableEq

structure Database where
  memoryData : List ScopedRow
  memoryEmbeddings : List ScopedRow
  jobs : List JobRow
  apiKeys : Table ApiKeyRow.keyHash
  credentials : List CredentialRow
  auditLog : List AuditRow
  projects : Table ProjectRow.id
  tenants : Table TenantRow.id
  cloudUsers : Table CloudUser.id
  deletionRequests : Table DeletionRequest.tokenHash
  waitlist : List WaitlistRow
  keyCache : List String

/-- The storage of the memory facade, or the stand-in of `delete_me` without one. -/
inductive ScopeStorage where
  | backend
  | nullStorage
deriving DecidableEq

/-- A row of one project. -/
def inScope (tenantId projectId rowTenant rowProject : String) : Bool :=
  rowTenant = tenantId && rowProject = projectId

namespace Database
variable (storage : ScopeStorage) (now : Int) (tenantId projectId : String) (db : Database)

/-- `storage.delete_scope`, with the number of data rows it removed. -/
def deleteScope : Database × Nat :=
  match storage with
  | .nullStorage => (db, 0)
  | .backend =>
      ({ db with
          memoryEmbeddings := db.memoryEmbeddings.filter fun r =>
            !inScope tenantId projectId r.tenantId r.projectId
          memoryData := db.memoryData.filter fun r =>
            !inScope tenantId projectId r.tenantId r.projectId },
        db.memoryData.countP fun r => inScope tenantId projectId r.tenantId r.projectId)

/-- The keys a project deletion revokes. -/
def toRevoke (r : ApiKeyRow) : Bool :=
  inScope tenantId projectId r.tenantId r.projectId && r.revokedAt.isNone

def revokedHashes : List String :=
  (db.apiKeys.returning (toRevoke tenantId projectId) id).map ApiKeyRow.keyHash

/-- The audit rows of a project; a row without a project is in none. -/
def audited (r : AuditRow) : Bool :=
  r.tenantId = tenantId && r.projectId = some projectId

def deleteProject : Database × DeletionResult :=
  let (db, patterns) := db.deleteScope storage tenantId projectId
  ({ db with
      jobs := db.jobs.filter fun r => !inScope tenantId projectId r.tenantId r.projectId
      apiKeys := db.apiKeys.update (toRevoke tenantId projectId)
        (fun r => { r with revokedAt := some now }) fun _ => rfl
      auditLog := updateWhere (audited tenantId projectId) (fun r => { r with detail := none })
        db.auditLog
      projects := db.projects.update
        (fun r => r.id = projectId && r.tenantId = tenantId && r.deletedAt.isNone)
        (fun r => { r with deletedAt := some now }) fun _ => rfl
      keyCache := db.keyCache.filter fun hash =>
        hash ∉ db.revokedHashes tenantId projectId },
    { tenantId := tenantId
      projectId := projectId
      patternsDeleted := patterns
      jobsDeleted := db.jobs.countP fun r => inScope tenantId projectId r.tenantId r.projectId
      keysRevoked := (db.revokedHashes tenantId projectId).length })

/-- The projects of a tenant that are not marked deleted. -/
def liveProjects : List String :=
  (db.projects.rows.filter fun r => r.tenantId = tenantId && r.deletedAt.isNone).map ProjectRow.id

/-- One round of the loop over the projects. -/
def deleteNext (done : Database × DeletionResult) (projectId : String) :
    Database × DeletionResult :=
  let (db, r) := done.1.deleteProject storage now tenantId projectId
  (db,
    { done.2 with
      patternsDeleted := done.2.patternsDeleted + r.patternsDeleted
      jobsDeleted := done.2.jobsDeleted + r.jobsDeleted
      keysRevoked := done.2.keysRevoked + r.keysRevoked
      projectsDeleted := done.2.projectsDeleted + 1 })

/-- What is left of a user: the address is made of the id. -/
def anonymised (reason : Option String) (r : CloudUser) : CloudUser :=
  { r with
    deletedAt := some now
    deletionReason := reason
    email := "deleted-" ++ r.id ++ "@deleted.engramia.dev"
    name := none
    passwordHash := none
    providerId := none }

def toAnonymise (r : CloudUser) : Bool :=
  r.tenantId = tenantId && r.deletedAt.isNone

/-- `delete_tenant`. -/
def deleteTenant (anonymiseUsers : Bool) (reason : Option String) : Database × DeletionResult :=
  let (db, aggregate) := (db.liveProjects tenantId).foldl (deleteNext storage now tenantId)
    (db, { tenantId := tenantId, projectId := "*" })
  let (db, aggregate) : Database × DeletionResult :=
    if anonymiseUsers then
      ({ db with
          cloudUsers := db.cloudUsers.update (toAnonymise tenantId) (anonymised now reason)
            fun _ => rfl },
        { aggregate with
          cloudUsersDeleted := db.cloudUsers.rows.countP (toAnonymise tenantId) })
    else (db, aggregate)
  ({ db with
      tenants := db.tenants.update (fun r => r.id = tenantId && r.deletedAt.isNone)
        (fun r => { r with deletedAt := some now }) fun _ => rfl },
    aggregate)

section Flows

/-- An `HTTPException` with a plain detail. -/
structure Refusal where
  statusCode : Nat
  detail : String
deriving DecidableEq

def invalidToken : Refusal := ⟨400, "Invalid deletion token."⟩
def invalidLink : Refusal := ⟨400, "Invalid or expired deletion link."⟩
def alreadyDeleted : Refusal := ⟨410, "Account has already been deleted."⟩
def alreadyUsed : Refusal := ⟨410, "This deletion link has already been used."⟩
def linkExpired : Refusal :=
  ⟨400, "This deletion link has expired. Please request a new one."⟩

def requestNotFound : Refusal := ⟨404, "Deletion request not found"⟩
def alreadyConsumed : Refusal := ⟨409, "Already consumed"⟩

/-- A token is spent by its hash. -/
def consume (tokenHash : String) : Database :=
  { db with
    deletionRequests := db.deletionRequests.update (fun r => r.tokenHash = tokenHash)
      (fun r => { r with consumedAt := some now }) fun _ => rfl }

/-- The full hash of a request, or the part that the admin view shows. -/
def findRequest (requestId : String) : Option DeletionRequest :=
  db.deletionRequests.rows.find? fun r =>
    r.tokenHash = requestId || r.tokenHash.toList.take 16 = requestId.toList

/-- The user is marked; a mark and a reason that are there already stay. -/
def marked (adminUserId : String) (r : CloudUser) : CloudUser :=
  { r with
    deletedAt := some (r.deletedAt.getD now)
    deletionReason := some (r.deletionReason.getD ("admin-approved:" ++ adminUserId)) }

/-- The database after an approval. -/
def approved (adminUserId : String) (req : DeletionRequest) : Database :=
  { db.consume now req.tokenHash with
    cloudUsers := db.cloudUsers.update (fun r => r.id = req.userId) (marked now adminUserId)
      fun _ => rfl }

/-- `approve_deletion_request` of the kind `account_deletion`. -/
def approveDeletionRequest (adminUserId requestId : String) : Except Refusal Database :=
  match db.findRequest requestId with
  | none => .error requestNotFound
  | some req =>
      if req.consumedAt.isSome then .error alreadyConsumed
      else .ok (db.approved now adminUserId req)

/-- The checks of `delete_me` on the request it has found. -/
def confirmable (req : DeletionRequest) (user : CloudUser) : Except Refusal Unit :=
  if user.deletedAt.isSome then .error alreadyDeleted
  else if req.consumedAt.isSome then .error alreadyUsed
  else if req.expiresAt < now then .error linkExpired
  else .ok ()

/-- The event that a confirmed deletion leaves behind. -/
def completion (ip : String) (req : DeletionRequest) (user : CloudUser)
    (result : DeletionResult) : AuditRow :=
  { tenantId := user.tenantId
    projectId := none
    action := "account_deletion_completed"
    actorUserId := some user.id
    resourceType := some "cloud_user"
    resourceId := some user.id
    ipAddress := some ip
    detail := some (.deletion result req.reason) }

/-- Waitlist entries under the address the user had or the tenant. -/
def wipeWaitlist (email : String) : Database :=
  if email = "" then db
  else
    { db with
      waitlist := db.waitlist.filter fun r => !(r.email = email || r.tenantId = some tenantId) }

/-- `delete_me` after the checks. -/
def confirmDeletion (ip : String) (req : DeletionRequest) (user : CloudUser) :
    Database × DeletionResult :=
  let (db, result) :=
    (db.consume now req.tokenHash).deleteTenant storage now user.tenantId true req.reason
  (({ db with auditLog := db.auditLog ++ [completion ip req user result] }).wipeWaitlist
      user.tenantId user.email,
    result)

def deleteMe (sha256 : String → String) (ip token : String) :
    Except Refusal (Database × DeletionResult) :=
  if token.length < 16 ∨ 128 < token.length then .error invalidToken
  else
    match db.deletionRequests.row? (sha256 token) with
    | none => .error invalidLink
    | some req =>
        match db.cloudUsers.row? req.userId with
        | none => .error invalidLink
        | some user =>
            match confirmable now req user with
            | .error e => .error e
            | .ok () => .ok (db.confirmDeletion storage now ip req user)

end Flows

end Database

end Engramia.Governance
