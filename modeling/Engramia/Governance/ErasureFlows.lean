import Engramia.Governance.ErasureComplete

/-!
The two ways an account deletion ends. The link in the mail runs the deletion of the
tenant, replaces what the user row says about a person and wipes the waitlist; the
approval of an admin marks the user row. They leave the same state only where there was
nothing left for the first to do.
-/
namespace Engramia.Governance
open Engramia.Library

namespace Database
variable {storage : ScopeStorage} {now : Int} {tenantId : String} {db db' : Database}
variable {sha256 : String → String} {adminUserId ip requestId token : String}
variable {req : DeletionRequest} {user : CloudUser}

structure UserView where
  id : String
  email : String
  name : Option String
  passwordHash : Option String
  providerId : Option String
  deleted : Bool
deriving DecidableEq

def userView (r : CloudUser) : UserView :=
  ⟨r.id, r.email, r.name, r.passwordHash, r.providerId, r.deletedAt.isSome⟩

/-- A database as to what is erased: when and why it was does not count, nor does the
event of the deletion itself. -/
structure ErasureView where
  data : List ScopedRow
  embeddings : List ScopedRow
  jobs : List JobRow
  keys : List (String × Bool)
  credentials : List CredentialRow
  audit : List (Option AuditDetail)
  projects : List (String × Bool)
  tenants : List (String × Bool)
  users : List UserView
  waitlist : List WaitlistRow

def projectView (r : ProjectRow) : String × Bool := (r.id, r.deletedAt.isSome)
def tenantView (r : TenantRow) : String × Bool := (r.id, r.deletedAt.isSome)
def keyView (r : ApiKeyRow) : String × Bool := (r.keyHash, r.revokedAt.isSome)

def auditView (rows : List AuditRow) : List (Option AuditDetail) :=
  (rows.filter fun r => r.action ≠ "account_deletion_completed").map AuditRow.detail

def erasureView (db : Database) : ErasureView where
  data := db.memoryData
  embeddings := db.memoryEmbeddings
  jobs := db.jobs
  keys := db.apiKeys.rows.map keyView
  credentials := db.credentials
  audit := auditView db.auditLog
  projects := db.projects.rows.map projectView
  tenants := db.tenants.rows.map tenantView
  users := db.cloudUsers.rows.map userView
  waitlist := db.waitlist

/-- A request that is open to both: an admin finds it, and its user holds a valid link. -/
structure OpenRequest (sha256 : String → String) (now : Int) (db : Database)
    (requestId token : String) (req : DeletionRequest) (user : CloudUser) : Prop where
  found : db.findRequest requestId = some req
  tokenHash : req.tokenHash = sha256 token
  length : ¬ (token.length < 16 ∨ 128 < token.length)
  holder : db.cloudUsers.row? req.userId = some user
  valid : confirmable now req user = .ok ()

/-- The approval and the link leave the same erased state. -/
def SameErased (sha256 : String → String) (storage : ScopeStorage) (now : Int)
    (adminUserId ip requestId token : String) (db : Database) : Prop :=
  ∃ approved confirmed, db.approveDeletionRequest now adminUserId requestId = .ok approved ∧
    db.deleteMe storage now sha256 ip token = .ok confirmed ∧
    approved.erasureView = confirmed.1.erasureView

/-- Nothing is left to erase but the mark on the user. -/
structure NothingLeft (db : Database) (user : CloudUser) : Prop where
  projects : db.liveProjects user.tenantId = []
  tenants : ∀ r ∈ db.tenants.rows, r.id = user.tenantId → r.deletedAt ≠ none
  users : ∀ r ∈ db.cloudUsers.rows, r.tenantId = user.tenantId → r.deletedAt = none → r = user
  email : user.email = "deleted-" ++ user.id ++ "@deleted.engramia.dev"
  name : user.name = none
  passwordHash : user.passwordHash = none
  providerId : user.providerId = none
  waitlist : ∀ r ∈ db.waitlist, r.email ≠ user.email ∧ r.tenantId ≠ some user.tenantId

theorem confirmable_ok (h : confirmable now req user = .ok ()) :
    user.deletedAt = none ∧ req.consumedAt = none := by
  rw [confirmable] at h
  split at h
  · cases h
  · next hlive =>
      split at h
      · cases h
      · next hopen =>
          simp only [Option.isSome_iff_ne_none, ne_eq, not_not] at hlive hopen
          exact ⟨hlive, hopen⟩

section Requests
variable (h : OpenRequest sha256 now db requestId token req user)
include h

theorem OpenRequest.approve :
    db.approveDeletionRequest now adminUserId requestId =
      .ok (db.approved now adminUserId req) := by
  have hopen := (confirmable_ok h.valid).2
  rw [approveDeletionRequest, h.found]
  simp only [hopen]
  rfl

theorem OpenRequest.confirm :
    db.deleteMe storage now sha256 ip token = .ok (db.confirmDeletion storage now ip req user) := by
  have hrow : db.deletionRequests.row? (sha256 token) = some req :=
    Table.row?_eq_some.mpr ⟨List.mem_of_find?_eq_some h.found, h.tokenHash⟩
  simp only [deleteMe, if_neg h.length, hrow, h.holder, h.valid]

theorem OpenRequest.sameErased_iff :
    SameErased sha256 storage now adminUserId ip requestId token db ↔
      (db.approved now adminUserId req).erasureView =
        (db.confirmDeletion storage now ip req user).1.erasureView := by
  rw [SameErased, h.approve, h.confirm]
  simp

theorem OpenRequest.row_iff {r : CloudUser} (hr : r ∈ db.cloudUsers.rows) :
    r.id = req.userId ↔ r = user := by
  have hholder := Table.row?_eq_some.mp h.holder
  constructor
  · intro hid
    have hkey : r.id = user.id := by rw [hid, hholder.2]
    exact List.inj_on_of_nodup_map db.cloudUsers.unique hr hholder.1 hkey
  · intro heq
    rw [heq]
    exact hholder.2

end Requests

section Views

theorem wipeWaitlist_eq (email : String) :
    db.wipeWaitlist tenantId email =
      { db with
        waitlist := if email = "" then db.waitlist
          else db.waitlist.filter fun r => !(r.email = email || r.tenantId = some tenantId) } := by
  rw [wipeWaitlist]
  split <;> rfl

/-- The part of the link that the two flows do not share. -/
def deleted (storage : ScopeStorage) (now : Int) (req : DeletionRequest) (user : CloudUser)
    (db : Database) : Database :=
  ((db.consume now req.tokenHash).deleteTenant storage now user.tenantId true req.reason).1

theorem cleared_deleted :
    Cleared storage now user.tenantId (db.liveProjects user.tenantId)
      (db.consume now req.tokenHash) (deleted storage now req user db) :=
  @cleared_deleteTenant storage now user.tenantId (db.consume now req.tokenHash) true req.reason

theorem auditView_completion (rows : List AuditRow) (result : DeletionResult) :
    auditView (rows ++ [completion ip req user result]) = auditView rows := by
  simp [auditView, completion]

theorem confirmDeletion_view :
    (db.confirmDeletion storage now ip req user).1.erasureView =
      { (deleted storage now req user db).erasureView with
        waitlist := if user.email = "" then db.waitlist
          else db.waitlist.filter fun r =>
            !(r.email = user.email || r.tenantId = some user.tenantId) } := by
  have hwaitlist : (deleted storage now req user db).waitlist = db.waitlist :=
    cleared_deleted.waitlist
  rw [← hwaitlist]
  show (wipeWaitlist _ _ _).erasureView = _
  rw [wipeWaitlist_eq, ErasureView.mk.injEq]
  refine ⟨rfl, rfl, rfl, rfl, rfl, ?_, rfl, rfl, rfl, rfl⟩
  exact auditView_completion _ _

theorem projects_alike_iff :
    (db.approved now adminUserId req).erasureView.projects =
        (deleted storage now req user db).erasureView.projects ↔
      db.liveProjects user.tenantId = [] := by
  have hrows : (deleted storage now req user db).projects.rows =
      updateWhere (removedIn user.tenantId (db.liveProjects user.tenantId))
        (fun r => { r with deletedAt := some now }) db.projects.rows := cleared_deleted.projects
  show db.projects.rows.map projectView = (deleted storage now req user db).projects.rows.map _ ↔ _
  rw [eq_comm, hrows, map_updateWhere_eq_self_iff]
  constructor
  · intro h
    rw [liveProjects, List.map_eq_nil_iff, List.filter_eq_nil_iff]
    intro r hr hlive
    have hmem : r.id ∈ db.liveProjects user.tenantId :=
      List.mem_map.mpr ⟨r, List.mem_filter.mpr ⟨hr, hlive⟩, rfl⟩
    rw [Bool.and_eq_true, decide_eq_true_eq, Option.isNone_iff_eq_none] at hlive
    have hsame := h r hr (removedIn_iff.mpr ⟨hmem, hlive⟩)
    simp [projectView, hlive.2] at hsame
  · intro h r _ hremoved
    rw [h] at hremoved
    exact absurd (removedIn_iff.mp hremoved).1 List.not_mem_nil

theorem tenants_alike_iff :
    (db.approved now adminUserId req).erasureView.tenants =
        (deleted storage now req user db).erasureView.tenants ↔
      ∀ r ∈ db.tenants.rows, r.id = user.tenantId → r.deletedAt ≠ none := by
  have hrows : (deleted storage now req user db).tenants.rows =
      updateWhere (fun r => r.id = user.tenantId && r.deletedAt.isNone)
        (fun r => { r with deletedAt := some now }) db.tenants.rows := tenants_deleteTenant
  show db.tenants.rows.map tenantView = (deleted storage now req user db).tenants.rows.map _ ↔ _
  rw [eq_comm, hrows, map_updateWhere_eq_self_iff]
  simp only [Bool.and_eq_true, decide_eq_true_eq, Option.isNone_iff_eq_none]
  constructor
  · intro h r hr hid hlive
    have hsame := h r hr ⟨hid, hlive⟩
    simp [tenantView, hlive] at hsame
  · intro h r hr hlive
    exact absurd hlive.2 (h r hr hlive.1)

theorem user_alike_iff :
    userView (marked now adminUserId user) = userView (anonymised now req.reason user) ↔
      user.email = "deleted-" ++ user.id ++ "@deleted.engramia.dev" ∧ user.name = none ∧
        user.passwordHash = none ∧ user.providerId = none := by
  simp [userView, marked, anonymised]

end Views

theorem placeholder_ne_empty {email id : String}
    (h : email = "deleted-" ++ id ++ "@deleted.engramia.dev") : email ≠ "" := by
  intro hempty
  have hlength := congrArg String.length (h.symm.trans hempty)
  simp at hlength

section Compare
variable (h : OpenRequest sha256 now db requestId token req user)
include h

theorem OpenRequest.users_alike_iff :
    (db.approved now adminUserId req).erasureView.users =
        (deleted storage now req user db).erasureView.users ↔
      (∀ r ∈ db.cloudUsers.rows, r.tenantId = user.tenantId → r.deletedAt = none → r = user) ∧
        user.email = "deleted-" ++ user.id ++ "@deleted.engramia.dev" ∧ user.name = none ∧
        user.passwordHash = none ∧ user.providerId = none := by
  have hholder := (Table.row?_eq_some.mp h.holder).1
  have hlive := (confirmable_ok h.valid).1
  have hrows : (deleted storage now req user db).cloudUsers.rows =
      updateWhere (toAnonymise user.tenantId) (anonymised now req.reason) db.cloudUsers.rows :=
    cloudUsers_deleteTenant
  show (updateWhere (fun r => r.id = req.userId) (marked now adminUserId)
    db.cloudUsers.rows).map userView = (deleted storage now req user db).cloudUsers.rows.map _ ↔ _
  rw [hrows, map_updateWhere_eq_iff, ← @user_alike_iff now adminUserId req user]
  have huser : toAnonymise user.tenantId user = true := by simp [toAnonymise, hlive]
  constructor
  · intro hsame
    refine ⟨?_, ?_⟩
    · intro r hr htenant hnone
      by_contra hne
      have hrow := hsame r hr
      have hid : ¬ r.id = req.userId := fun hid => hne ((h.row_iff hr).mp hid)
      have hanon : toAnonymise user.tenantId r = true := by simp [toAnonymise, htenant, hnone]
      rw [if_neg (by simpa using hid), if_pos hanon] at hrow
      have hmark := congrArg UserView.deleted hrow
      simp [userView, anonymised, hnone] at hmark
    · have hrow := hsame user hholder
      have hid := (h.row_iff hholder).mpr rfl
      rwa [if_pos (by simpa using hid), if_pos huser] at hrow
  · intro halike r hr
    by_cases hr' : r = user
    · have hid := (h.row_iff hholder).mpr rfl
      rw [hr', if_pos (by simpa using hid), if_pos huser]
      exact halike.2
    · have hid : ¬ r.id = req.userId := fun hid => hr' ((h.row_iff hr).mp hid)
      have hkept : ¬ toAnonymise user.tenantId r = true := by
        intro hanon
        rw [toAnonymise, Bool.and_eq_true, decide_eq_true_eq, Option.isNone_iff_eq_none] at hanon
        exact hr' (halike.1 r hr hanon.1 hanon.2)
      rw [if_neg (by simpa using hid), if_neg hkept]

theorem OpenRequest.iff_nothingLeft :
    SameErased sha256 storage now adminUserId ip requestId token db ↔ NothingLeft db user := by
  rw [h.sameErased_iff, confirmDeletion_view]
  constructor
  · intro hsame
    have hprojects := congrArg ErasureView.projects hsame
    have htenants := congrArg ErasureView.tenants hsame
    have husers := congrArg ErasureView.users hsame
    obtain ⟨hothers, hemail, hname, hpassword, hprovider⟩ := h.users_alike_iff.mp husers
    refine ⟨projects_alike_iff.mp hprojects, tenants_alike_iff.mp htenants, hothers, hemail,
      hname, hpassword, hprovider, ?_⟩
    have hwaitlist := congrArg ErasureView.waitlist hsame
    change db.waitlist = ite _ _ _ at hwaitlist
    rw [if_neg (placeholder_ne_empty hemail), eq_comm, List.filter_eq_self] at hwaitlist
    intro r hr
    have hkept := hwaitlist r hr
    simpa [not_or] using hkept
  · intro hleft
    have hclear := @cleared_deleted storage now db req user
    rw [hleft.projects] at hclear
    have hnil : Cleared storage now user.tenantId [] (db.consume now req.tokenHash)
        (db.consume now req.tokenHash) := cleared_nil
    have hkeys := congrArg (List.map keyView) (hclear.keys.trans hnil.keys.symm)
    have haudit := congrArg auditView (hclear.audit.trans hnil.audit.symm)
    rw [ErasureView.mk.injEq]
    refine ⟨(hclear.data.trans hnil.data.symm).symm,
      (hclear.embeddings.trans hnil.embeddings.symm).symm,
      (hclear.jobs.trans hnil.jobs.symm).symm, hkeys.symm, hclear.credentials.symm, haudit.symm,
      projects_alike_iff.mpr hleft.projects, tenants_alike_iff.mpr hleft.tenants,
      h.users_alike_iff.mpr ⟨hleft.users, hleft.email, hleft.name, hleft.passwordHash,
        hleft.providerId⟩, ?_⟩
    rw [if_neg (placeholder_ne_empty hleft.email), eq_comm]
    show _ = db.waitlist
    rw [List.filter_eq_self]
    intro r hr
    simp [hleft.waitlist r hr]

end Compare

/-- What a tenant is promised: its deletion is complete and leaves the others alone, and
whoever may end an open request of its users, the same is erased. -/
def ErasureHolds (sha256 : String → String) (storage : ScopeStorage) (now : Int)
    (tenantId : String) (db : Database) : Prop :=
  (∀ anonymiseUsers reason,
    Erased now tenantId (db.deleteTenant .backend now tenantId anonymiseUsers reason).1 ∧
      OthersKept tenantId db (db.deleteTenant .backend now tenantId anonymiseUsers reason).1) ∧
  ∀ adminUserId ip requestId token req user,
    OpenRequest sha256 now db requestId token req user → user.tenantId = tenantId →
      SameErased sha256 storage now adminUserId ip requestId token db

/-- The promise is kept exactly where everything hangs on a project that is not marked
deleted, and nothing at all is left once a user can ask for deletion. -/
theorem erasure_iff (sha256 : String → String) (storage : ScopeStorage) (now : Int)
    (tenantId : String) (db : Database) :
    ErasureHolds sha256 storage now tenantId db ↔
      Covered now tenantId db ∧ ∀ requestId token req user,
        OpenRequest sha256 now db requestId token req user → user.tenantId = tenantId →
          NothingLeft db user := by
  constructor
  · intro h
    refine ⟨erased_iff.mp (h.1 false none).1, ?_⟩
    intro requestId token req user hopen htenant
    exact hopen.iff_nothingLeft.mp (h.2 "" "" requestId token req user hopen htenant)
  · intro h
    constructor
    · intro anonymiseUsers reason
      exact ⟨erased_iff.mpr h.1, othersKept_deleteTenant⟩
    · intro adminUserId ip requestId token req user hopen htenant
      exact hopen.iff_nothingLeft.mpr (h.2 requestId token req user hopen htenant)

section Sample

def deletionRequested : AuditRow :=
  { tenantId := "acme"
    projectId := none
    action := "account_deletion_requested"
    actorUserId := some "u1"
    resourceType := some "cloud_user"
    resourceId := some "u1"
    ipAddress := some "192.0.2.1"
    detail := some (.other "reason") }

def acmeUser : CloudUser :=
  ⟨"u1", "acme", "ann@example.com", some "Ann", none, none, none, none⟩

def acmeRequest : DeletionRequest := ⟨"deletion-token-1", "u1", 86400, none, some "reason"⟩

/-- A tenant with one project, whose user has asked for deletion. -/
def acmeDatabase : Database where
  memoryData := [⟨"acme", "p", "patterns/a"⟩]
  memoryEmbeddings := [⟨"acme", "p", "patterns/a"⟩]
  jobs := []
  apiKeys := ⟨[], List.nodup_nil⟩
  credentials := [⟨"c1", "acme", "active"⟩]
  auditLog := [deletionRequested]
  projects := ⟨[⟨"p", "acme", none⟩], List.nodup_singleton _⟩
  tenants := ⟨[⟨"acme", none⟩], List.nodup_singleton _⟩
  cloudUsers := ⟨[acmeUser], List.nodup_singleton _⟩
  deletionRequests := ⟨[acmeRequest], List.nodup_singleton _⟩
  waitlist := []
  keyCache := []

/-- The reason in the event of the request outlives the tenant, and the approval leaves
the address of the user. -/
theorem erasure_incomplete :
    ¬ ErasureHolds id .backend 0 "acme" acmeDatabase ∧
      ¬ SameErased id .backend 0 "admin" "192.0.2.1" "deletion-token-1" "deletion-token-1"
        acmeDatabase := by
  constructor
  · intro h
    have hrow : deletionRequested ∈
        (acmeDatabase.deleteTenant .backend 0 "acme" false none).1.auditLog := by decide
    have hdetail := (h.1 false none).1.audit deletionRequested hrow rfl
    cases hdetail
  · intro h
    have hopen : OpenRequest id 0 acmeDatabase "deletion-token-1" "deletion-token-1" acmeRequest
        acmeUser := ⟨by decide, rfl, by decide, by decide, by decide⟩
    exact absurd (hopen.iff_nothingLeft.mp h).name (by decide)

end Sample

end Database

end Engramia.Governance
