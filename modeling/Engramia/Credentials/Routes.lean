import Engramia.Credentials.Providers

/-!
The write paths: the credential routes and the admin's force-clear, each with
the caches it flushes and the status it answers with. Audit entries are left
out. A request the environment decides about carries the verdict: the
provider's answer to the validation ping, the tenant's entitlement, a write
the database refuses.
-/
namespace Engramia.Credentials

open Engramia.Library

section Routes
variable {B : Type}

/-- `CredentialResolver.invalidate`. -/
def invalidateResolver (s : Byok B) (tenantId : String) : Byok B :=
  { s with resolved := s.resolved.discard fun k => k.1 = tenantId }

/-- `_invalidate_provider_cache`. It looks for the embedding provider under
`_embed` and `embed`; `Memory` has it under `_embeddings` and `embeddings`, so
only the chains are dropped. -/
def invalidateProviderCache (s : Byok B) (tenantId : String) : Byok B :=
  { s with chains := s.chains.discard fun k => k.1 = tenantId }

/-- The body of `POST /v1/credentials`, encrypted. `accepted` is the
provider's answer to the validation ping. -/
structure CreateRequest (B : Type) where
  upsert : Upsert B
  accepted : Bool
  validatedAt : Int

def createCredential (s : Byok B) (req : CreateRequest B) : Byok B × Nat :=
  if ¬ req.accepted then (s, 400)
  else
    match upsert s.rows req.upsert with
    | none => (s, 500)
    | some (rows, id) =>
        (invalidateResolver { s with rows := markValidated rows id req.validatedAt }
          req.upsert.tenantId, 201)

structure PatchRequest where
  tenantId : String
  id : String
  fields : PatchFields
  /-- The parsed `If-Match` header. -/
  ifMatch : Option Int
  entitled : Bool
  now : Int

/-- `PATCH /v1/credentials/{id}`. -/
def updateCredential (s : Byok B) (req : PatchRequest) : Byok B × Nat :=
  let fields : PatchFields :=
    { baseUrl := req.fields.baseUrl
      defaultModel := req.fields.defaultModel
      defaultEmbedModel := req.fields.defaultEmbedModel
      roleModels := none
      failoverChain := none
      roleCostLimits := none }
  match patch s.rows req.tenantId req.id fields none req.now with
  | (rows, .updated) =>
      (invalidateProviderCache (invalidateResolver { s with rows := rows } req.tenantId)
        req.tenantId, 200)
  | (_, _) => (s, if (getById s.rows req.tenantId req.id).isSome then 200 else 404)

/-- The part the three sub-resources share: the tier gate for a body that is
not empty, the mandatory `If-Match`, the write, the flushes. -/
def updateSubResource (s : Byok B) (req : PatchRequest) (existing : StoredCredential B)
    (emptyBody : Bool) (fields : PatchFields) : Byok B × Nat :=
  if ¬ emptyBody ∧ ¬ req.entitled then (s, 402)
  else
    match req.ifMatch with
    | none => (s, 428)
    | some etag =>
        if etag ≠ existing.updatedAt then (s, 412)
        else
          match patch s.rows req.tenantId req.id fields (some etag) req.now with
          | (rows, .updated) =>
              (invalidateProviderCache (invalidateResolver { s with rows := rows } req.tenantId)
                req.tenantId, 200)
          | (_, .preconditionFailed) => (s, 412)
          | (_, _) => (s, 404)

def noFields : PatchFields := ⟨none, none, none, none, none, none⟩

/-- `PATCH /v1/credentials/{id}/role-models`. -/
def updateRoleModels (s : Byok B) (req : PatchRequest) : Byok B × Nat :=
  match getById s.rows req.tenantId req.id with
  | none => (s, 404)
  | some existing =>
      let roleModels := req.fields.roleModels.getD []
      updateSubResource s req existing roleModels.isEmpty
        { noFields with roleModels := some roleModels }

/-- `PATCH /v1/credentials/{id}/role-cost-limits`. -/
def updateRoleCostLimits (s : Byok B) (req : PatchRequest) : Byok B × Nat :=
  match getById s.rows req.tenantId req.id with
  | none => (s, 404)
  | some existing =>
      let roleCostLimits := req.fields.roleCostLimits.getD []
      updateSubResource s req existing roleCostLimits.isEmpty
        { noFields with roleCostLimits := some roleCostLimits }

/-- `PATCH /v1/credentials/{id}/failover-chain`. Every member must be another
active credential of the tenant. -/
def updateFailoverChain (s : Byok B) (req : PatchRequest) : Byok B × Nat :=
  match getById s.rows req.tenantId req.id with
  | none => (s, 404)
  | some existing =>
      let chain := req.fields.failoverChain.getD []
      if req.id ∈ chain then (s, 422)
      else if chain.any fun id =>
          (getById s.rows req.tenantId id).all fun r => r.status ≠ .active then (s, 422)
      else
        updateSubResource s req existing chain.isEmpty
          { noFields with failoverChain := some chain }

/-- `DELETE /v1/credentials/{id}`. -/
def revokeCredential (s : Byok B) (tenantId id : String) (now : Int) : Byok B × Nat :=
  if s.rows.rows.any (revocable tenantId id) then
    (invalidateResolver { s with rows := revoke s.rows tenantId id now } tenantId, 204)
  else (s, 404)

/-- The rows `force_clear_credentials` revokes. -/
def clearable (tenantId : String) (providers : List String) (r : StoredCredential B) : Bool :=
  r.tenantId = tenantId ∧ r.status = .active ∧
    (providers = [] ∨ r.provider.text ∈ providers)

/-- `POST /v1/admin/credentials/{tenant_id}/clear`. It flushes no cache. -/
def forceClearCredentials (s : Byok B) (tenantId : String) (providers : List String)
    (now : Int) : Byok B × Nat :=
  if tenantId ∈ s.tenants then
    ({ s with
      rows := s.rows.update (clearable tenantId providers)
        (StoredCredential.setStatus .revoked now)
        (StoredCredential.setStatus_id .revoked now) }, 200)
  else (s, 404)

end Routes

inductive CredentialAction (B : Type) where
  | llmCall (env : CallEnv) (tenantId role : String)
  | embedCall (env : CallEnv) (tenantId : String)
  | create (req : CreateRequest B)
  | updateCredential (req : PatchRequest)
  | updateRoleModels (req : PatchRequest)
  | updateRoleCostLimits (req : PatchRequest)
  | updateFailoverChain (req : PatchRequest)
  | revoke (tenantId id : String) (now : Int)
  | forceClear (tenantId : String) (providers : List String) (now : Int)

section Step
variable {B : Type} (decrypt : String → Provider → Purpose → B → Option String)

def step (s : Byok B) : CredentialAction B → Byok B
  | .llmCall env tenantId role => (llmCall decrypt env s tenantId role).1
  | .embedCall env tenantId => (embedCall decrypt env s tenantId).1
  | .create req => (createCredential s req).1
  | .updateCredential req => (updateCredential s req).1
  | .updateRoleModels req => (updateRoleModels s req).1
  | .updateRoleCostLimits req => (updateRoleCostLimits s req).1
  | .updateFailoverChain req => (updateFailoverChain s req).1
  | .revoke tenantId id now => (revokeCredential s tenantId id now).1
  | .forceClear tenantId providers now => (forceClearCredentials s tenantId providers now).1

/-- The clients an action calls, with the tenant it calls them for. -/
def clientsCalled (s : Byok B) : CredentialAction B → List (String × Client)
  | .llmCall env tenantId role =>
      (llmCall decrypt env s tenantId role).2.map fun c => (tenantId, c)
  | .embedCall env tenantId => (embedCall decrypt env s tenantId).2.map fun c => (tenantId, c)
  | _ => []

end Step

end Engramia.Credentials
