import Engramia.Library.KeyedTable
import Mathlib.Data.List.Sort

/-!
The `tenant_credentials` table and the statements of `CredentialStore`.

`B` is what a backend stores for a secret: ciphertext, nonce, tag and the
marker of the backend that can read it. Fingerprints and the validation and
usage timestamps are shown to people only and are left out.
-/
namespace Engramia.Credentials

open Engramia.Library

inductive Provider where
  | openai
  | anthropic
  | gemini
  | ollama
  | openaiCompat
deriving DecidableEq, Repr

/-- The column's text, which an admin's request is compared with. -/
def Provider.text : Provider → String
  | .openai => "openai"
  | .anthropic => "anthropic"
  | .gemini => "gemini"
  | .ollama => "ollama"
  | .openaiCompat => "openai_compat"

inductive Purpose where
  | llm
  | embedding
  | both
deriving DecidableEq, Repr

inductive CredentialStatus where
  | active
  | revoked
  | invalid
deriving DecidableEq, Repr

structure StoredCredential (B : Type) where
  id : String
  tenantId : String
  provider : Provider
  purpose : Purpose
  blob : B
  baseUrl : Option String
  defaultModel : Option String
  defaultEmbedModel : Option String
  roleModels : List (String × String)
  failoverChain : List String
  roleCostLimits : List (String × Nat)
  status : CredentialStatus
  createdAt : Int
  updatedAt : Int
deriving DecidableEq

abbrev CredentialTable (B : Type) :=
  Table (fun r : StoredCredential B => r.id)

/-- What `upsert` is called with, and the id and the time the database gives
the row. -/
structure Upsert (B : Type) where
  tenantId : String
  provider : Provider
  purpose : Purpose
  blob : B
  baseUrl : Option String
  defaultModel : Option String
  defaultEmbedModel : Option String
  newId : String
  now : Int

section Statements
variable {B : Type}

/-- The row is the one the `(tenant_id, provider, purpose)` constraint names. -/
def Upsert.onSlot (u : Upsert B) (r : StoredCredential B) : Bool :=
  r.tenantId = u.tenantId ∧ r.provider = u.provider ∧ r.purpose = u.purpose

theorem Upsert.onSlot_iff {u : Upsert B} {r : StoredCredential B} :
    u.onSlot r = true ↔
      r.tenantId = u.tenantId ∧ r.provider = u.provider ∧ r.purpose = u.purpose := by
  simp [Upsert.onSlot]

def Upsert.replace (u : Upsert B) (r : StoredCredential B) : StoredCredential B :=
  { r with
    blob := u.blob
    baseUrl := u.baseUrl
    defaultModel := u.defaultModel
    defaultEmbedModel := u.defaultEmbedModel
    status := .active
    updatedAt := u.now }

def Upsert.row (u : Upsert B) : StoredCredential B :=
  { id := u.newId
    tenantId := u.tenantId
    provider := u.provider
    purpose := u.purpose
    blob := u.blob
    baseUrl := u.baseUrl
    defaultModel := u.defaultModel
    defaultEmbedModel := u.defaultEmbedModel
    roleModels := []
    failoverChain := []
    roleCostLimits := []
    status := .active
    createdAt := u.now
    updatedAt := u.now }

theorem Upsert.replace_id (u : Upsert B) (r : StoredCredential B) :
    (u.replace r).id = r.id := rfl

def upsert (rows : CredentialTable B) (u : Upsert B) : Option (CredentialTable B × String) :=
  match rows.rows.find? u.onSlot with
  | some r => some (rows.update u.onSlot u.replace u.replace_id, r.id)
  | none => (rows.insert u.row).map fun rows => (rows, u.newId)

def StoredCredential.touch (now : Int) (r : StoredCredential B) : StoredCredential B :=
  { r with updatedAt := now }

def StoredCredential.setStatus (status : CredentialStatus) (now : Int)
    (r : StoredCredential B) : StoredCredential B :=
  { r with status := status, updatedAt := now }

theorem StoredCredential.touch_id (now : Int) (r : StoredCredential B) :
    (r.touch now).id = r.id := rfl

theorem StoredCredential.setStatus_id (status : CredentialStatus) (now : Int)
    (r : StoredCredential B) : (r.setStatus status now).id = r.id := rfl

theorem StoredCredential.setStatus_inactive {status : CredentialStatus}
    (h : status ≠ .active) (now : Int) (r : StoredCredential B) :
    (r.setStatus status now).status ≠ .active := h

def markValidated (rows : CredentialTable B) (id : String) (now : Int) : CredentialTable B :=
  rows.update (fun r => r.id = id) (StoredCredential.touch now)
    (StoredCredential.touch_id now)

def markInvalid (rows : CredentialTable B) (id : String) (now : Int) : CredentialTable B :=
  rows.update (fun r => r.id = id) (StoredCredential.setStatus .invalid now)
    (StoredCredential.setStatus_id .invalid now)

def revocable (tenantId id : String) (r : StoredCredential B) : Bool :=
  r.id = id ∧ r.tenantId = tenantId ∧ r.status ≠ .revoked

def revoke (rows : CredentialTable B) (tenantId id : String) (now : Int) :
    CredentialTable B :=
  rows.update (revocable tenantId id) (StoredCredential.setStatus .revoked now)
    (StoredCredential.setStatus_id .revoked now)

def getById (rows : CredentialTable B) (tenantId id : String) :
    Option (StoredCredential B) :=
  (rows.row? id).filter fun r => r.tenantId = tenantId

def serves (tenantId : String) (purpose : Purpose) (r : StoredCredential B) : Bool :=
  r.tenantId = tenantId ∧ r.status = .active ∧ (r.purpose = purpose ∨ r.purpose = .both)

/-- `ORDER BY (purpose = :purp) DESC, created_at DESC`. -/
def comesFirst (purpose : Purpose) (a b : StoredCredential B) : Bool :=
  if (a.purpose = purpose) = (b.purpose = purpose) then b.createdAt ≤ a.createdAt
  else a.purpose = purpose

def getActiveForPurpose (rows : CredentialTable B) (tenantId : String) (purpose : Purpose) :
    Option (StoredCredential B) :=
  ((rows.rows.filter (serves tenantId purpose)).insertionSort
    fun a b => comesFirst purpose a b = true).head?

/-- The fields `patch` may set; `none` leaves a field alone. -/
structure PatchFields where
  baseUrl : Option String
  defaultModel : Option String
  defaultEmbedModel : Option String
  roleModels : Option (List (String × String))
  failoverChain : Option (List String)
  roleCostLimits : Option (List (String × Nat))
deriving DecidableEq

def PatchFields.isEmpty (f : PatchFields) : Bool :=
  f.baseUrl.isNone && f.defaultModel.isNone && f.defaultEmbedModel.isNone &&
    f.roleModels.isNone && f.failoverChain.isNone && f.roleCostLimits.isNone

def PatchFields.set (f : PatchFields) (now : Int) (r : StoredCredential B) :
    StoredCredential B :=
  { r with
    baseUrl := f.baseUrl.or r.baseUrl
    defaultModel := f.defaultModel.or r.defaultModel
    defaultEmbedModel := f.defaultEmbedModel.or r.defaultEmbedModel
    roleModels := f.roleModels.getD r.roleModels
    failoverChain := f.failoverChain.getD r.failoverChain
    roleCostLimits := f.roleCostLimits.getD r.roleCostLimits
    updatedAt := now }

theorem PatchFields.set_id (f : PatchFields) (now : Int) (r : StoredCredential B) :
    (f.set now r).id = r.id := rfl

inductive PatchOutcome where
  | updated
  | notFound
  | emptyBody
  | preconditionFailed
deriving DecidableEq, Repr

def patch (rows : CredentialTable B) (tenantId id : String) (f : PatchFields)
    (ifMatch : Option Int) (now : Int) : CredentialTable B × PatchOutcome :=
  let hit (r : StoredCredential B) : Bool :=
    r.id = id ∧ r.tenantId = tenantId ∧ ∀ etag ∈ ifMatch, r.updatedAt = etag
  if f.isEmpty then (rows, .emptyBody)
  else if rows.rows.any hit then (rows.update hit (f.set now) (f.set_id now), .updated)
  else if ifMatch.isNone then (rows, .notFound)
  else if (getById rows tenantId id).isSome then (rows, .preconditionFailed)
  else (rows, .notFound)

theorem getById_eq_some {rows : CredentialTable B} {tenantId id : String}
    {r : StoredCredential B} :
    getById rows tenantId id = some r ↔ r ∈ rows.rows ∧ r.id = id ∧ r.tenantId = tenantId := by
  rw [getById, Option.filter_eq_some_iff, Table.row?_eq_some, and_assoc]
  simp

theorem getActiveForPurpose_some {rows : CredentialTable B} {tenantId : String}
    {purpose : Purpose} {r : StoredCredential B}
    (h : getActiveForPurpose rows tenantId purpose = some r) :
    r ∈ rows.rows ∧ r.tenantId = tenantId ∧ r.status = .active := by
  have hmem := (List.mem_insertionSort _).mp (List.mem_of_mem_head? h)
  obtain ⟨hr, hserves⟩ := List.mem_filter.mp hmem
  simp only [serves, decide_eq_true_eq] at hserves
  exact ⟨hr, hserves.1, hserves.2.1⟩

end Statements

end Engramia.Credentials
