import Engramia.Credentials.Store
import Engramia.Library.OrderedDict
import Engramia.Library.Whitespace

/-!
From rows to provider calls: the resolver with its cache, the LLM failover
chains and the embedding providers with theirs. Every cache is keyed and
bounded as in the source; `decrypt` is the backends' decryption, `none` when
it raises `DecryptionError`.
-/
namespace Engramia.Credentials

open Engramia.Library

structure TenantCredential where
  id : String
  tenantId : String
  provider : Provider
  purpose : Purpose
  apiKey : String
  baseUrl : Option String
  defaultModel : Option String
  defaultEmbedModel : Option String
  roleModels : List (String × String)
  failoverChain : List String
  roleCostLimits : List (String × Nat)
  status : CredentialStatus
deriving DecidableEq, Repr

/-- `a or b` on an optional text. -/
def orText (a : Option String) (b : String) : String :=
  match a with
  | some s => if s = "" then b else s
  | none => b

def defaultModelFor : Provider → String
  | .openai => "gpt-4.1"
  | .anthropic => "claude-sonnet-4-6"
  | .gemini => "gemini-2.5-flash"
  | .ollama => "llama3.3"
  | .openaiCompat => "gpt-4.1"

def TenantCredential.modelForRole (cred : TenantCredential) (role : String) : String :=
  match cred.roleModels.lookup role with
  | some model => model
  | none => orText cred.defaultModel (defaultModelFor cred.provider)

def TenantCredential.costCeilingForRole (cred : TenantCredential) (role : String) :
    Option Nat :=
  if (cred.roleModels.lookup role).isSome then cred.roleCostLimits.lookup role else none

/-- A dictionary with its keys stripped. Where two become one, the later value is kept. -/
def stripKeys {α : Type} : List (String × α) → List (String × α)
  | [] => []
  | (key, value) :: entries =>
      let rest := stripKeys entries
      (stripText key, (rest.lookup (stripText key)).getD value) ::
        rest.filter fun x => x.1 ≠ stripText key

/-- `_row_to_tenant_credential`. The class strips its texts, those in lists and dictionaries too.
An id is drawn by the database and a tenant is named by a slug, which have nothing to strip. -/
def StoredCredential.toTenantCredential {B : Type} (r : StoredCredential B)
    (plaintext : String) : TenantCredential where
  id := r.id
  tenantId := r.tenantId
  provider := r.provider
  purpose := r.purpose
  apiKey := stripText plaintext
  baseUrl := r.baseUrl.map stripText
  defaultModel := r.defaultModel.map stripText
  defaultEmbedModel := r.defaultEmbedModel.map stripText
  roleModels := stripKeys (r.roleModels.map fun x => (x.1, stripText x.2))
  failoverChain := r.failoverChain.map stripText
  roleCostLimits := stripKeys r.roleCostLimits
  status := r.status

/-- A constructed SDK client, for LLM calls or for embeddings. -/
structure Client where
  provider : Provider
  apiKey : String
  model : String
  baseUrl : Option String
deriving DecidableEq, Repr

structure ChainEntry where
  client : Client
  credentialId : String
deriving DecidableEq, Repr

def cacheTtlMicros : Int := 3600000000

def resolverCacheMax : Nat := 512

def providerCacheMax : Nat := 4096

def failoverChainMaxLen : Nat := 3

def ollamaUrl : String := "http://localhost:11434/v1"

/-- The credential subsystem of one process: the tables and the three caches. -/
structure Byok (B : Type) where
  tenants : List String
  rows : CredentialTable B
  /-- By tenant and purpose, with the time the entry expires. -/
  resolved : OrderedDict (String × Purpose) (Int × TenantCredential)
  /-- By tenant, provider and role. -/
  chains : OrderedDict (String × Provider × String) (List ChainEntry)
  /-- By tenant and provider. -/
  embedders : OrderedDict (String × Provider) Client

inductive CallOutcome where
  | success
  | authError
  | transientError
deriving DecidableEq, Repr

/-- What a call meets outside the process: the clock, a database that cannot
be read, rows whose vault is unreachable, the SDKs that are installed, the
role's spend if it can be read, and how the providers answer in turn. -/
structure CallEnv where
  now : Int
  storeDown : Bool
  vaultDown : String → Bool
  installed : Provider → Bool
  spend : Option Nat
  outcomes : List CallOutcome

/-- `_build_one_llm`; `none` is the `ImportError` of a missing SDK. -/
def buildOneLlm (installed : Provider → Bool) (cred : TenantCredential) (role : String) :
    Option Client :=
  if installed cred.provider then
    some
      { provider := cred.provider
        apiKey := cred.apiKey
        model := cred.modelForRole role
        baseUrl :=
          match cred.provider with
          | .openai | .openaiCompat => cred.baseUrl
          | .anthropic | .gemini => none
          | .ollama => some (orText cred.baseUrl ollamaUrl) }
  else none

/-- `_build_embeddings`; `none` when the provider offers none or its SDK is
missing. -/
def buildEmbeddings (installed : Provider → Bool) (cred : TenantCredential) : Option Client :=
  let client (model : String) (baseUrl : Option String) : Option Client :=
    if installed cred.provider then
      some
        { provider := cred.provider, apiKey := cred.apiKey
          model := orText cred.defaultEmbedModel model, baseUrl := baseUrl }
    else none
  match cred.provider with
  | .openai | .openaiCompat => client "text-embedding-3-small" cred.baseUrl
  | .gemini => client "gemini-embedding-001" none
  | .ollama => client "nomic-embed-text" (some (orText cred.baseUrl ollamaUrl))
  | .anthropic => none

section Calls
variable {B : Type} (decrypt : String → Provider → Purpose → B → Option String)

/-- `_decrypt`: the blob is bound to the slot it was encrypted for. -/
def StoredCredential.plaintext (r : StoredCredential B) : Option String :=
  decrypt r.tenantId r.provider r.purpose r.blob

/-- The key that a client of the row is given. -/
def StoredCredential.apiKey (r : StoredCredential B) : Option String :=
  (r.plaintext decrypt).map stripText

/-- `_cache_get`. -/
def cacheGet (d : OrderedDict (String × Purpose) (Int × TenantCredential))
    (k : String × Purpose) (now : Int) :
    OrderedDict (String × Purpose) (Int × TenantCredential) × Option TenantCredential :=
  match d.get? k with
  | none => (d, none)
  | some (expiresAt, cred) =>
      if expiresAt ≤ now then (d.discard (· = k), none) else (d.moveToEnd k, some cred)

/-- The row's secret, or the row marked invalid when it does not decrypt. A
vault that cannot be reached leaves the row alone. -/
def decryptRow (env : CallEnv) (s : Byok B) (r : StoredCredential B) :
    Byok B × Option TenantCredential :=
  if env.vaultDown r.id then (s, none)
  else
    match r.plaintext decrypt with
    | none => ({ s with rows := markInvalid s.rows r.id env.now }, none)
    | some plaintext => (s, some (r.toTenantCredential plaintext))

/-- `CredentialResolver.resolve`. -/
def resolve (env : CallEnv) (s : Byok B) (tenantId : String) (purpose : Purpose) :
    Byok B × Option TenantCredential :=
  match cacheGet s.resolved (tenantId, purpose) env.now with
  | (resolved, some cred) => ({ s with resolved := resolved }, some cred)
  | (resolved, none) =>
      let s : Byok B := { s with resolved := resolved }
      let row := if env.storeDown then none else getActiveForPurpose s.rows tenantId purpose
      match row with
      | none => (s, none)
      | some r =>
          match decryptRow decrypt env s r with
          | (s, none) => (s, none)
          | (s, some cred) =>
              ({ s with
                resolved := s.resolved.put resolverCacheMax (tenantId, purpose)
                  (env.now + cacheTtlMicros, cred) }, some cred)

/-- `CredentialResolver.resolve_by_id`. -/
def resolveById (env : CallEnv) (s : Byok B) (tenantId id : String) :
    Byok B × Option TenantCredential :=
  let row := if env.storeDown then none else getById s.rows tenantId id
  match row with
  | none => (s, none)
  | some r => if r.status = .active then decryptRow decrypt env s r else (s, none)

/-- The fallbacks of a chain: ids seen before, rows that do not resolve and
clients that cannot be built are skipped. -/
def buildFallbacks (env : CallEnv) (tenantId role : String) :
    List String → List String → Byok B → Byok B × List ChainEntry
  | [], _, s => (s, [])
  | id :: rest, seen, s =>
      if id ∈ seen then buildFallbacks env tenantId role rest seen s
      else
        let (s, fallback) := resolveById decrypt env s tenantId id
        let (s, entries) := buildFallbacks env tenantId role rest (id :: seen) s
        match fallback with
        | some cred =>
            match buildOneLlm env.installed cred role with
            | some client => (s, ⟨client, cred.id⟩ :: entries)
            | none => (s, entries)
        | none => (s, entries)

/-- `_build_llm_chain`; `none` when the primary cannot be built. -/
def buildLlmChain (env : CallEnv) (s : Byok B) (cred : TenantCredential) (role : String) :
    Byok B × Option (List ChainEntry) :=
  match buildOneLlm env.installed cred role with
  | none => (s, none)
  | some client =>
      let (s, fallbacks) := buildFallbacks decrypt env cred.tenantId role
        (cred.failoverChain.take (failoverChainMaxLen - 1)) [cred.id] s
      (s, some (⟨client, cred.id⟩ :: fallbacks))

/-- `_get_or_build_chain`. -/
def getOrBuildChain (env : CallEnv) (s : Byok B) (cred : TenantCredential) (role : String) :
    Byok B × Option (List ChainEntry) :=
  match s.chains.get? (cred.tenantId, cred.provider, role) with
  | some chain =>
      ({ s with chains := s.chains.moveToEnd (cred.tenantId, cred.provider, role) }, some chain)
  | none =>
      match buildLlmChain decrypt env s cred role with
      | (s, none) => (s, none)
      | (s, some chain) =>
          ({ s with
            chains := s.chains.put providerCacheMax (cred.tenantId, cred.provider, role) chain },
            some chain)

/-- `_apply_cost_ceiling`. -/
def applyCostCeiling (env : CallEnv) (cred : TenantCredential) (role : String) : String :=
  match cred.costCeilingForRole role, env.spend with
  | some cap, some spend => if spend < cap then role else "default"
  | _, _ => role

/-- The clients of a chain that are called: the next one only after a
transient error. -/
def called : List ChainEntry → List CallOutcome → List Client
  | [], _ => []
  | e :: rest, .transientError :: outcomes => e.client :: called rest outcomes
  | e :: _, _ => [e.client]

/-- `TenantScopedLLMProvider.call`, with the clients it calls. Without a
credential the demo provider answers. -/
def llmCall (env : CallEnv) (s : Byok B) (tenantId role : String) : Byok B × List Client :=
  match resolve decrypt env s tenantId .llm with
  | (s, none) => (s, [])
  | (s, some cred) =>
      match getOrBuildChain decrypt env s cred (applyCostCeiling env cred role) with
      | (s, none) => (s, [])
      | (s, some chain) => (s, called chain env.outcomes)

/-- `_get_or_build_embeddings`. -/
def getOrBuildEmbeddings (env : CallEnv) (s : Byok B) (cred : TenantCredential) :
    Byok B × Option Client :=
  match s.embedders.get? (cred.tenantId, cred.provider) with
  | some client =>
      ({ s with embedders := s.embedders.moveToEnd (cred.tenantId, cred.provider) }, some client)
  | none =>
      match buildEmbeddings env.installed cred with
      | none => (s, none)
      | some client =>
          ({ s with
            embedders := s.embedders.put providerCacheMax (cred.tenantId, cred.provider) client },
            some client)

/-- The credential `_resolve_provider` of the embedding provider settles on. -/
def embeddingCredential (env : CallEnv) (s : Byok B) (tenantId : String) :
    Byok B × Option TenantCredential :=
  match resolve decrypt env s tenantId .embedding with
  | (s, some cred) => (s, some cred)
  | (s, none) =>
      match resolve decrypt env s tenantId .llm with
      | (s, some cred) => (s, if cred.provider = .anthropic then none else some cred)
      | (s, none) => (s, none)

/-- `TenantScopedEmbeddingProvider.embed`, with the client it calls. Without
one the local embeddings answer. -/
def embedCall (env : CallEnv) (s : Byok B) (tenantId : String) : Byok B × List Client :=
  match embeddingCredential decrypt env s tenantId with
  | (s, none) => (s, [])
  | (s, some cred) =>
      match getOrBuildEmbeddings env s cred with
      | (s, some client) => (s, [client])
      | (s, none) => (s, [])

end Calls

end Engramia.Credentials
