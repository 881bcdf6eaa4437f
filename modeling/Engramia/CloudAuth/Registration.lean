import Engramia.Library.KeyedTable

/-!
The registration of a cloud account: a tenant, its default project, its user and perhaps an
API key, in one transaction. The uuids and the generated key are drawn by the caller.
-/
namespace Engramia.CloudAuth
open Engramia.Library

structure AccountTenant where
  id : String
  name : String
  planTier : String
deriving DecidableEq

structure AccountProject where
  id : String
  tenantId : String
  name : String
  maxPatterns : Int
deriving DecidableEq

structure AccountUser where
  id : String
  email : String
  passwordHash : Option String
  tenantId : String
  name : Option String
  provider : String
  providerId : Option String
  emailVerified : Bool
  mustChangePassword : Bool := false
deriving DecidableEq

structure AccountKey where
  id : String
  tenantId : String
  projectId : String
  name : String
  keyPrefix : String
  keyHash : String
  role : String
deriving DecidableEq

structure Accounts where
  tenants : Table AccountTenant.id
  projects : Table AccountProject.id
  users : Table AccountUser.id
  apiKeys : Table AccountKey.id

def defaultProjectPatternLimit : Int := 10000

/-- The base of a tenant slug. -/
def slugBase (lower : String → String) (emailPrefix : String) : String :=
  let dashed := (lower emailPrefix).toList.map fun c =>
    if c.isLower || c.isDigit then c else '-'
  let stripped := ((dashed.dropWhile (· = '-')).reverse.dropWhile (· = '-')).reverse
  String.ofList (stripped.take 24)

/-- `_make_tenant_slug`; a new uuid in hexadecimal is at hand. -/
def makeTenantSlug (lower : String → String) (tenants : Table AccountTenant.id)
    (emailPrefix uuid : String) : String :=
  let base := slugBase lower emailPrefix
  if base = "" then String.ofList (uuid.toList.take 32)
  else if (tenants.row? base).isNone then base
  else base ++ "-" ++ String.ofList (uuid.toList.take 8)

/-- `email.split("@")[0]`. -/
def emailPrefix (email : String) : String :=
  String.ofList (email.toList.takeWhile (· ≠ '@'))

structure GeneratedKey where
  id : String
  displayPrefix : String
  keyHash : String
deriving DecidableEq

/-- What a registration is asked for, with the uuids that it draws. -/
structure Registration where
  email : String
  passwordHash : Option String
  name : Option String
  provider : String
  providerId : Option String
  emailVerified : Bool := false
  apiKey : Option GeneratedKey
  tenantId : String
  projectId : String
  userId : String

namespace Registration

def tenant (r : Registration) : AccountTenant where
  id := r.tenantId
  name := if r.name.getD "" = "" then r.email else r.name.getD ""
  planTier := "free"

def project (r : Registration) : AccountProject where
  id := r.projectId
  tenantId := r.tenantId
  name := "default"
  maxPatterns := defaultProjectPatternLimit

def user (r : Registration) : AccountUser where
  id := r.userId
  email := r.email
  passwordHash := r.passwordHash
  tenantId := r.tenantId
  name := r.name
  provider := r.provider
  providerId := r.providerId
  emailVerified := r.emailVerified

def key (r : Registration) (generated : GeneratedKey) : AccountKey where
  id := generated.id
  tenantId := r.tenantId
  projectId := r.projectId
  name := "Default API Key"
  keyPrefix := generated.displayPrefix
  keyHash := generated.keyHash
  role := "owner"

end Registration

namespace Accounts

/-- The address is the address of a user. -/
def taken (accounts : Accounts) (email : String) : Bool :=
  accounts.users.rows.any fun user => user.email = email

def insertKey (apiKeys : Table AccountKey.id) (r : Registration) :
    Option (Table AccountKey.id) :=
  match r.apiKey with
  | none => some apiKeys
  | some generated => apiKeys.insert (r.key generated)

/-- The transaction of `_create_registration`, `none` if it is rolled back. -/
def createRegistration (accounts : Accounts) (r : Registration) : Option Accounts :=
  (accounts.tenants.insert r.tenant).bind fun tenants =>
    (accounts.projects.insert r.project).bind fun projects =>
      if accounts.taken r.email then none
      else
        (accounts.users.insert r.user).bind fun users =>
          (insertKey accounts.apiKeys r).map fun apiKeys => ⟨tenants, projects, users, apiKeys⟩

variable {accounts registered : Accounts} {r : Registration}

theorem createRegistration_eq_some (h : accounts.createRegistration r = some registered) :
    accounts.taken r.email = false ∧ accounts.tenants.insert r.tenant = some registered.tenants ∧
      accounts.users.insert r.user = some registered.users := by
  rw [createRegistration, Option.bind_eq_some_iff] at h
  obtain ⟨tenants, htenants, h⟩ := h
  rw [Option.bind_eq_some_iff] at h
  obtain ⟨projects, -, h⟩ := h
  cases htaken : accounts.taken r.email with
  | true => simp [htaken] at h
  | false =>
      rw [htaken, if_neg Bool.false_ne_true, Option.bind_eq_some_iff] at h
      obtain ⟨users, husers, h⟩ := h
      obtain ⟨apiKeys, -, heq⟩ := Option.map_eq_some_iff.mp h
      exact ⟨rfl, heq ▸ htenants, heq ▸ husers⟩

theorem createRegistration_isSome (htaken : accounts.taken r.email = false)
    (htenant : accounts.tenants.row? r.tenantId = none)
    (hproject : accounts.projects.row? r.projectId = none)
    (huser : accounts.users.row? r.userId = none) (hkey : r.apiKey = none) :
    (accounts.createRegistration r).isSome = true := by
  obtain ⟨tenants, htenants⟩ := Table.exists_insert (r := r.tenant) htenant
  obtain ⟨projects, hprojects⟩ := Table.exists_insert (r := r.project) hproject
  obtain ⟨users, husers⟩ := Table.exists_insert (r := r.user) huser
  simp [createRegistration, htenants, hprojects, htaken, husers, insertKey, hkey]

end Accounts

end Engramia.CloudAuth
