import Engramia.Governance.Erasure

/-!
What the loop over the projects does to every table, in one statement for any list of
projects. It is the deletion of one project with the list in place of the project.
-/
namespace Engramia.Governance
open Engramia.Library

namespace Database
variable {storage : ScopeStorage} {now : Int} {tenantId projectId : String}
variable {projectIds : List String} {db db' : Database} {done : Database × DeletionResult}

/-- A row of one of the projects. -/
def inScopes (tenantId : String) (projectIds : List String) (rowTenant rowProject : String) :
    Bool :=
  projectIds.any fun projectId => inScope tenantId projectId rowTenant rowProject

def revokedIn (tenantId : String) (projectIds : List String) (r : ApiKeyRow) : Bool :=
  inScopes tenantId projectIds r.tenantId r.projectId && r.revokedAt.isNone

def auditedIn (tenantId : String) (projectIds : List String) (r : AuditRow) : Bool :=
  projectIds.any fun projectId => audited tenantId projectId r

def removedIn (tenantId : String) (projectIds : List String) (r : ProjectRow) : Bool :=
  projectIds.any fun projectId => r.id = projectId && r.tenantId = tenantId && r.deletedAt.isNone

/-- What is left of the data of a tenant once some projects are deleted. -/
def keptData (storage : ScopeStorage) (tenantId : String) (projectIds : List String)
    (rows : List ScopedRow) : List ScopedRow :=
  match storage with
  | .nullStorage => rows
  | .backend => rows.filter fun r => !inScopes tenantId projectIds r.tenantId r.projectId

/-- A database after the deletion of some projects of a tenant. -/
structure Cleared (storage : ScopeStorage) (now : Int) (tenantId : String)
    (projectIds : List String) (db db' : Database) : Prop where
  data : db'.memoryData = keptData storage tenantId projectIds db.memoryData
  embeddings : db'.memoryEmbeddings = keptData storage tenantId projectIds db.memoryEmbeddings
  jobs : db'.jobs = db.jobs.filter fun r => !inScopes tenantId projectIds r.tenantId r.projectId
  keys : db'.apiKeys.rows = updateWhere (revokedIn tenantId projectIds)
    (fun r => { r with revokedAt := some now }) db.apiKeys.rows
  cache : ∀ hash, hash ∈ db'.keyCache ↔ hash ∈ db.keyCache ∧
    ∀ r ∈ db.apiKeys.rows, revokedIn tenantId projectIds r = true → r.keyHash ≠ hash
  audit : db'.auditLog = updateWhere (auditedIn tenantId projectIds)
    (fun r => { r with detail := none }) db.auditLog
  projects : db'.projects.rows = updateWhere (removedIn tenantId projectIds)
    (fun r => { r with deletedAt := some now }) db.projects.rows
  credentials : db'.credentials = db.credentials
  deletionRequests : db'.deletionRequests = db.deletionRequests
  waitlist : db'.waitlist = db.waitlist

theorem cleared_nil : Cleared storage now tenantId [] db db where
  data := by cases storage <;> simp [keptData, inScopes]
  embeddings := by cases storage <;> simp [keptData, inScopes]
  jobs := by simp [inScopes]
  keys := (updateWhere_of_none fun r _ => by simp [revokedIn, inScopes]).symm
  cache := by simp [revokedIn, inScopes]
  audit := (updateWhere_of_none fun r _ => by simp [auditedIn]).symm
  projects := (updateWhere_of_none fun r _ => by simp [removedIn]).symm
  credentials := rfl
  deletionRequests := rfl
  waitlist := rfl

section Rows
variable (p : String) (ps : List String)

theorem inScopes_cons (a b : String) :
    inScopes tenantId (p :: ps) a b = (inScopes tenantId [p] a b || inScopes tenantId ps a b) := by
  simp [inScopes]

theorem revokedIn_cons (r : ApiKeyRow) :
    revokedIn tenantId (p :: ps) r = (revokedIn tenantId [p] r || revokedIn tenantId ps r) := by
  rw [revokedIn, inScopes_cons p ps, Bool.and_or_distrib_right]
  rfl

theorem auditedIn_cons (r : AuditRow) :
    auditedIn tenantId (p :: ps) r = (auditedIn tenantId [p] r || auditedIn tenantId ps r) := by
  simp [auditedIn]

theorem removedIn_cons (r : ProjectRow) :
    removedIn tenantId (p :: ps) r = (removedIn tenantId [p] r || removedIn tenantId ps r) := by
  simp [removedIn]

variable {p ps}

theorem inScopes_singleton (a b : String) :
    inScopes tenantId [p] a b = inScope tenantId p a b := by
  simp [inScopes]

theorem revokedIn_singleton : revokedIn tenantId [p] = toRevoke tenantId p := by
  funext r
  rw [revokedIn, inScopes_singleton, toRevoke]

theorem auditedIn_singleton : auditedIn tenantId [p] = audited tenantId p := by
  funext r
  simp [auditedIn]

theorem keptData_cons (rows : List ScopedRow) :
    keptData storage tenantId ps (keptData storage tenantId [p] rows) =
      keptData storage tenantId (p :: ps) rows := by
  cases storage with
  | nullStorage => rfl
  | backend =>
      rw [keptData, keptData, keptData, List.filter_filter]
      apply List.filter_congr
      intro r _
      rw [inScopes_cons p ps, Bool.not_or, Bool.and_comm]

theorem mem_revokedHashes {hash : String} :
    hash ∈ db.revokedHashes tenantId p ↔
      ∃ r ∈ db.apiKeys.rows, revokedIn tenantId [p] r = true ∧ r.keyHash = hash := by
  rw [revokedHashes, Table.returning, List.map_map, List.mem_map, revokedIn_singleton]
  constructor
  · intro h
    obtain ⟨r, hr, heq⟩ := h
    exact ⟨r, (List.mem_filter.mp hr).1, (List.mem_filter.mp hr).2, heq⟩
  · intro h
    obtain ⟨r, hr, hrevoke, heq⟩ := h
    exact ⟨r, List.mem_filter.mpr ⟨hr, hrevoke⟩, heq⟩

end Rows

theorem keptData_singleton (rows : List ScopedRow) :
    keptData .backend tenantId [projectId] rows =
      rows.filter fun r => !inScope tenantId projectId r.tenantId r.projectId := by
  simp only [keptData, inScopes_singleton]

/-- A key leaves the cache when it is revoked. -/
theorem mem_cache_deleteProject {hash : String} :
    hash ∈ (db.keyCache.filter fun hash => hash ∉ db.revokedHashes tenantId projectId) ↔
      hash ∈ db.keyCache ∧ ∀ r ∈ db.apiKeys.rows,
        revokedIn tenantId [projectId] r = true → r.keyHash ≠ hash := by
  rw [List.mem_filter, decide_eq_true_eq, mem_revokedHashes]
  apply and_congr_right
  intro _
  constructor
  · intro h r hr hrevoke heq
    exact h ⟨r, hr, hrevoke, heq⟩
  · intro h hex
    obtain ⟨r, hr, hrevoke, heq⟩ := hex
    exact h r hr hrevoke heq

theorem cleared_deleteProject :
    Cleared storage now tenantId [projectId] db
      (db.deleteProject storage now tenantId projectId).1 where
  data := by
    cases storage with
    | nullStorage => rfl
    | backend => exact (keptData_singleton _).symm
  embeddings := by
    cases storage with
    | nullStorage => rfl
    | backend => exact (keptData_singleton _).symm
  jobs := by cases storage <;> simp only [deleteProject, deleteScope, inScopes_singleton]
  keys := by cases storage <;> rw [revokedIn_singleton] <;> rfl
  cache := by
    intro hash
    cases storage <;> exact mem_cache_deleteProject
  audit := by cases storage <;> rw [auditedIn_singleton] <;> rfl
  projects := by
    have hsame : removedIn tenantId [projectId] = fun r : ProjectRow =>
        r.id = projectId && r.tenantId = tenantId && r.deletedAt.isNone := by
      funext r
      simp [removedIn]
    cases storage <;> rw [hsame] <;> rfl
  credentials := by cases storage <;> rfl
  deletionRequests := by cases storage <;> rfl
  waitlist := by cases storage <;> rfl

theorem Cleared.trans {p : String} {ps : List String} {db₁ db₂ : Database}
    (h₁ : Cleared storage now tenantId [p] db db₁) (h₂ : Cleared storage now tenantId ps db₁ db₂) :
    Cleared storage now tenantId (p :: ps) db db₂ where
  data := by rw [h₂.data, h₁.data, keptData_cons]
  embeddings := by rw [h₂.embeddings, h₁.embeddings, keptData_cons]
  jobs := by
    rw [h₂.jobs, h₁.jobs, List.filter_filter]
    apply List.filter_congr
    intro r _
    rw [inScopes_cons p ps, Bool.not_or, Bool.and_comm]
  keys := by
    rw [h₂.keys, h₁.keys, updateWhere_updateWhere]
    · simp only [← revokedIn_cons]
    · intro r
      rfl
  cache := by
    intro hash
    rw [h₂.cache, h₁.cache, h₁.keys]
    constructor
    · intro h
      refine ⟨h.1.1, ?_⟩
      intro r hr hrevoke
      by_cases hfirst : revokedIn tenantId [p] r = true
      · exact h.1.2 r hr hfirst
      · rw [revokedIn_cons p ps, eq_false_of_ne_true hfirst, Bool.false_or] at hrevoke
        exact h.2 r (mem_updateWhere.mpr ⟨r, hr, if_neg hfirst⟩) hrevoke
    · intro h
      refine ⟨⟨h.1, ?_⟩, ?_⟩
      · intro r hr hfirst
        apply h.2 r hr
        rw [revokedIn_cons p ps, hfirst, Bool.true_or]
      · intro r hr hrest
        cases mem_updateWhere_cases hr with
        | inl hnew =>
            -- a key that was revoked is not revoked again
            obtain ⟨r₀, _, _, heq⟩ := hnew
            rw [heq] at hrest
            simp [revokedIn] at hrest
        | inr hold =>
            apply h.2 r hold.1
            rw [revokedIn_cons p ps, hrest, Bool.or_true]
  audit := by
    rw [h₂.audit, h₁.audit, updateWhere_updateWhere]
    · simp only [← auditedIn_cons]
    · intro r
      rfl
  projects := by
    rw [h₂.projects, h₁.projects, updateWhere_updateWhere]
    · simp only [← removedIn_cons]
    · intro r
      rfl
  credentials := h₂.credentials.trans h₁.credentials
  deletionRequests := h₂.deletionRequests.trans h₁.deletionRequests
  waitlist := h₂.waitlist.trans h₁.waitlist

theorem cleared_foldl :
    Cleared storage now tenantId projectIds done.1
      (projectIds.foldl (deleteNext storage now tenantId) done).1 := by
  induction projectIds generalizing done with
  | nil => exact cleared_nil
  | cons p ps ih =>
      have hrest := @ih (deleteNext storage now tenantId done p)
      exact cleared_deleteProject.trans hrest

/-- The loop over the projects leaves the users and the tenant to the statements after it. -/
theorem foldl_users :
    (projectIds.foldl (deleteNext storage now tenantId) done).1.cloudUsers = done.1.cloudUsers ∧
      (projectIds.foldl (deleteNext storage now tenantId) done).1.tenants = done.1.tenants := by
  induction projectIds generalizing done with
  | nil => exact ⟨rfl, rfl⟩
  | cons p ps ih =>
      have hrest := @ih (deleteNext storage now tenantId done p)
      cases storage with
      | backend => exact hrest
      | nullStorage => exact hrest

section Tenant
variable {anonymiseUsers : Bool} {reason : Option String}

theorem cleared_deleteTenant :
    Cleared storage now tenantId (db.liveProjects tenantId) db
      (db.deleteTenant storage now tenantId anonymiseUsers reason).1 := by
  have hloop := @cleared_foldl storage now tenantId (db.liveProjects tenantId)
    (db, { tenantId := tenantId, projectId := "*" })
  cases anonymiseUsers with
  | true => exact { hloop with }
  | false => exact { hloop with }

theorem cloudUsers_deleteTenant :
    (db.deleteTenant storage now tenantId true reason).1.cloudUsers.rows =
      updateWhere (toAnonymise tenantId) (anonymised now reason) db.cloudUsers.rows := by
  have hloop := @foldl_users storage now tenantId (db.liveProjects tenantId)
    (db, { tenantId := tenantId, projectId := "*" })
  exact congrArg (fun users : Table CloudUser.id =>
    updateWhere (toAnonymise tenantId) (anonymised now reason) users.rows) hloop.1

theorem cloudUsers_deleteTenant_kept :
    (db.deleteTenant storage now tenantId false reason).1.cloudUsers = db.cloudUsers := by
  have hloop := @foldl_users storage now tenantId (db.liveProjects tenantId)
    (db, { tenantId := tenantId, projectId := "*" })
  exact hloop.1

theorem tenants_deleteTenant :
    (db.deleteTenant storage now tenantId anonymiseUsers reason).1.tenants.rows =
      updateWhere (fun r => r.id = tenantId && r.deletedAt.isNone)
        (fun r => { r with deletedAt := some now }) db.tenants.rows := by
  have hloop := @foldl_users storage now tenantId (db.liveProjects tenantId)
    (db, { tenantId := tenantId, projectId := "*" })
  cases anonymiseUsers with
  | true => exact congrArg (fun tenants : Table TenantRow.id => updateWhere
      (fun r => r.id = tenantId && r.deletedAt.isNone)
      (fun r => { r with deletedAt := some now }) tenants.rows) hloop.2
  | false => exact congrArg (fun tenants : Table TenantRow.id => updateWhere
      (fun r => r.id = tenantId && r.deletedAt.isNone)
      (fun r => { r with deletedAt := some now }) tenants.rows) hloop.2

end Tenant

end Database

end Engramia.Governance
