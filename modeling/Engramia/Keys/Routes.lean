import Engramia.Keys.Store

/-!
The key routes behind `require_auth` and `require_permission`, in one process. A request
takes no time of its own: what has passed since the last one is added to the clock when
it arrives. The audit entries and the cap on the length of the list view are left out.
-/
namespace Engramia.Keys
open Engramia.Library

/-- An `HTTPException` with a plain detail. -/
structure HttpError where
  statusCode : Nat
  detail : String
deriving DecidableEq

structure KeyApi where
  keys : KeyTable
  cache : KeyCache
  now : Int

/-- What a request brings for its authentication. -/
structure AuthCall where
  token : String
  elapsed : Nat
  monotonic : Int
  dbDown : Bool

/-- The body of `POST /v1/keys`, as it is validated. -/
structure KeyCreateRequest where
  name : String
  role : Role
  maxPatterns : Option Int
  expiresAt : Option String
  name_length : 1 ≤ name.length ∧ name.length ≤ 100
  max_patterns_range : ∀ n ∈ maxPatterns, 1 ≤ n ∧ n ≤ 1000000

structure KeyCreateResponse where
  id : String
  name : String
  key : String
  keyPrefix : String
  role : Role
  tenantId : String
  projectId : String
  maxPatterns : Option Int
  createdAt : Int

inductive KeyReply where
  | created (response : KeyCreateResponse)
  | revoked (id : String)
  | rotated (id key keyPrefix : String)

/-- The operation a request asks for, with the values that the server draws for it. -/
inductive KeyOp where
  | create (body : KeyCreateRequest) (suffix newId : String)
  | revoke (keyId : String)
  | rotate (keyId suffix : String)

structure KeyRequest where
  auth : AuthCall
  op : KeyOp

def KeyReply.secret : KeyReply → Option String
  | .created response => some response.key
  | .revoked _ => none
  | .rotated _ key _ => some key

def invalidApiKey : HttpError := ⟨401, "Invalid API key."⟩
def keyNotFound : HttpError := ⟨404, "Key not found."⟩
def alreadyRevoked : HttpError := ⟨409, "Key is already revoked."⟩
def cannotRotateRevoked : HttpError := ⟨409, "Cannot rotate a revoked key."⟩
def serverError : HttpError := ⟨500, "Internal Server Error"⟩

def permissionDenied (role : Role) (perm : String) : HttpError :=
  ⟨403, "Role '" ++ role.text ++ "' does not have permission '" ++ perm ++ "'."⟩

def cannotAssign (role requested : Role) : HttpError :=
  ⟨403, "Role '" ++ role.text ++ "' may assign at most '" ++ (maxAssignable role).text ++
    "' keys. Requested role '" ++ requested.text ++ "' is not permitted."⟩

section Routes
variable (hash : String → String) (timestamptz : String → Option Int)

/-- `_db_auth`. A database that fails answers like one without the key. -/
def authenticate (s : KeyApi) (c : AuthCall) : KeyApi × Option AuthRow :=
  let now := s.now + c.elapsed
  let found := if c.dbDown then none else s.keys.lookup (hash c.token) now
  let result := lookupKeyCached found s.cache (hash c.token) c.monotonic
  ({ s with cache := result.1, now := now }, result.2)

/-- The dependencies of a route. -/
def requireKey (perm : String) (s : KeyApi) (c : AuthCall) : KeyApi × Except HttpError AuthRow :=
  match authenticate hash s c with
  | (s, none) => (s, .error invalidApiKey)
  | (s, some ctx) =>
      if ctx.role.permits perm then (s, .ok ctx)
      else (s, .error (permissionDenied ctx.role perm))

/-- How the database reads `expires_at`, or `none` when it refuses the text. -/
def castExpiry : Option String → Option (Option Int)
  | none => some none
  | some text => (timestamptz text).map some

/-- The row of `_create_key_in_db`. -/
def newApiKey (s : KeyApi) (ctx : AuthRow) (body : KeyCreateRequest) (expiresAt : Option Int)
    (g : GeneratedKey) (newId : String) : ApiKey where
  id := newId
  tenantId := ctx.tenantId
  projectId := ctx.projectId
  name := body.name
  keyPrefix := g.displayPrefix
  keyHash := g.keyHash
  role := body.role
  maxPatterns := body.maxPatterns
  createdAt := s.now
  lastUsedAt := none
  revokedAt := none
  expiresAt := expiresAt

def createKey (s : KeyApi) (ctx : AuthRow) (body : KeyCreateRequest) (g : GeneratedKey)
    (newId : String) : KeyApi × Except HttpError KeyReply :=
  if roleRank (maxAssignable ctx.role) < roleRank body.role then
    (s, .error (cannotAssign ctx.role body.role))
  else
    match (castExpiry timestamptz body.expiresAt).bind fun expiresAt =>
        s.keys.insert (newApiKey s ctx body expiresAt g newId) with
    | none => (s, .error serverError)
    | some keys =>
        ({ s with keys := keys },
          .ok <| .created
            { id := newId
              name := body.name
              key := g.fullKey
              keyPrefix := g.displayPrefix
              role := body.role
              tenantId := ctx.tenantId
              projectId := ctx.projectId
              maxPatterns := body.maxPatterns
              createdAt := s.now })

def revokeKey (s : KeyApi) (ctx : AuthRow) (keyId : String) :
    KeyApi × Except HttpError KeyReply :=
  match s.keys.fetch keyId ctx.tenantId ctx.projectId with
  | none => (s, .error keyNotFound)
  | some r =>
      if r.revokedAt.isSome then (s, .error alreadyRevoked)
      else
        ({ s with
            keys := s.keys.revoke keyId s.now
            cache := invalidateKeyCache s.cache r.keyHash }, .ok (.revoked keyId))

def rotateKey (s : KeyApi) (ctx : AuthRow) (keyId : String) (g : GeneratedKey) :
    KeyApi × Except HttpError KeyReply :=
  match s.keys.fetch keyId ctx.tenantId ctx.projectId with
  | none => (s, .error keyNotFound)
  | some r =>
      if r.revokedAt.isSome then (s, .error cannotRotateRevoked)
      else
        match s.keys.rotate keyId g.keyHash g.displayPrefix with
        | none => (s, .error serverError)
        | some keys =>
            ({ s with keys := keys, cache := invalidateKeyCache s.cache r.keyHash },
              .ok (.rotated keyId g.fullKey g.displayPrefix))

def KeyOp.permission : KeyOp → String
  | .create _ _ _ => "keys:create"
  | .revoke _ => "keys:revoke"
  | .rotate _ _ => "keys:rotate"

def perform (s : KeyApi) (ctx : AuthRow) : KeyOp → KeyApi × Except HttpError KeyReply
  | .create body suffix newId =>
      createKey timestamptz s ctx body (generateKey hash suffix) newId
  | .revoke keyId => revokeKey s ctx keyId
  | .rotate keyId suffix => rotateKey s ctx keyId (generateKey hash suffix)

def handle (s : KeyApi) (q : KeyRequest) : KeyApi × Except HttpError KeyReply :=
  match requireKey hash q.op.permission s q.auth with
  | (s, .error e) => (s, .error e)
  | (s, .ok ctx) => perform hash timestamptz s ctx q.op

end Routes

section Cases
variable {timestamptz : String → Option Int} {s : KeyApi} {ctx : AuthRow}

theorem createKey_cases (timestamptz : String → Option Int) (s : KeyApi) (ctx : AuthRow)
    (body : KeyCreateRequest) (g : GeneratedKey) (newId : String) :
    (∃ e, createKey timestamptz s ctx body g newId = (s, .error e)) ∨
    ∃ expiresAt keys response, roleRank body.role ≤ roleRank (maxAssignable ctx.role) ∧
      s.keys.insert (newApiKey s ctx body expiresAt g newId) = some keys ∧
      response.key = g.fullKey ∧
      createKey timestamptz s ctx body g newId =
        ({ s with keys := keys }, .ok (.created response)) := by
  rw [createKey]
  by_cases hrank : roleRank (maxAssignable ctx.role) < roleRank body.role
  · rw [if_pos hrank]
    exact .inl ⟨_, rfl⟩
  · rw [if_neg hrank]
    cases hinsert : (castExpiry timestamptz body.expiresAt).bind fun expiresAt =>
        s.keys.insert (newApiKey s ctx body expiresAt g newId) with
    | none => exact .inl ⟨_, rfl⟩
    | some keys =>
        obtain ⟨expiresAt, -, hkeys⟩ := Option.bind_eq_some_iff.mp hinsert
        exact .inr ⟨expiresAt, keys, _, by omega, hkeys, rfl, rfl⟩

theorem revokeKey_cases (s : KeyApi) (ctx : AuthRow) (keyId : String) :
    (∃ e, revokeKey s ctx keyId = (s, .error e)) ∨
    ∃ r, s.keys.fetch keyId ctx.tenantId ctx.projectId = some r ∧
      revokeKey s ctx keyId =
        ({ s with
            keys := s.keys.revoke keyId s.now
            cache := invalidateKeyCache s.cache r.keyHash }, .ok (.revoked keyId)) := by
  rw [revokeKey]
  cases hfetch : s.keys.fetch keyId ctx.tenantId ctx.projectId with
  | none => exact .inl ⟨_, rfl⟩
  | some r =>
      by_cases hrevoked : r.revokedAt.isSome = true
      · exact .inl ⟨_, if_pos hrevoked⟩
      · exact .inr ⟨r, rfl, if_neg hrevoked⟩

/-- The row that a rotation goes through on, with the table it leaves. -/
def rotation (s : KeyApi) (ctx : AuthRow) (keyId : String) (g : GeneratedKey) :
    Option (ApiKey × KeyTable) :=
  match s.keys.fetch keyId ctx.tenantId ctx.projectId with
  | none => none
  | some r =>
      if r.revokedAt.isSome then none
      else (s.keys.rotate keyId g.keyHash g.displayPrefix).map fun keys => (r, keys)

theorem rotation_eq_some {keyId : String} {g : GeneratedKey} {r : ApiKey} {keys : KeyTable}
    (h : rotation s ctx keyId g = some (r, keys)) :
    s.keys.fetch keyId ctx.tenantId ctx.projectId = some r ∧ r.revokedAt = none ∧
      s.keys.rotate keyId g.keyHash g.displayPrefix = some keys := by
  rw [rotation] at h
  cases hfetch : s.keys.fetch keyId ctx.tenantId ctx.projectId with
  | none => rw [hfetch] at h; cases h
  | some x =>
      simp only [hfetch] at h
      by_cases hrevoked : x.revokedAt.isSome = true
      · rw [if_pos hrevoked] at h
        cases h
      · rw [if_neg hrevoked] at h
        obtain ⟨table, htable, heq⟩ := Option.map_eq_some_iff.mp h
        cases heq
        exact ⟨rfl, by simpa using hrevoked, htable⟩

theorem rotateKey_cases (s : KeyApi) (ctx : AuthRow) (keyId : String) (g : GeneratedKey) :
    (rotation s ctx keyId g = none ∧ ∃ e, rotateKey s ctx keyId g = (s, .error e)) ∨
    ∃ r keys, rotation s ctx keyId g = some (r, keys) ∧
      rotateKey s ctx keyId g =
        ({ s with keys := keys, cache := invalidateKeyCache s.cache r.keyHash },
          .ok (.rotated keyId g.fullKey g.displayPrefix)) := by
  rw [rotation, rotateKey]
  cases hfetch : s.keys.fetch keyId ctx.tenantId ctx.projectId with
  | none => exact .inl ⟨rfl, _, rfl⟩
  | some r =>
      by_cases hrevoked : r.revokedAt.isSome = true
      · exact .inl ⟨if_pos hrevoked, _, if_pos hrevoked⟩
      · simp only [if_neg hrevoked]
        cases s.keys.rotate keyId g.keyHash g.displayPrefix with
        | none => exact .inl ⟨rfl, _, rfl⟩
        | some keys => exact .inr ⟨r, keys, rfl, rfl⟩

variable (hash : String → String)

theorem requireKey_fst (perm : String) (s : KeyApi) (c : AuthCall) :
    (requireKey hash perm s c).1 = (authenticate hash s c).1 := by
  rw [requireKey]
  cases authenticate hash s c with
  | mk s' found =>
      cases found with
      | none => rfl
      | some ctx =>
          by_cases hperm : ctx.role.permits perm = true
          · simp only [if_pos hperm]
          · simp only [if_neg hperm]

variable (timestamptz) in
theorem handle_cases (s : KeyApi) (q : KeyRequest) :
    (∃ e, handle hash timestamptz s q = ((authenticate hash s q.auth).1, .error e)) ∨
    ∃ ctx, requireKey hash q.op.permission s q.auth = ((authenticate hash s q.auth).1, .ok ctx) ∧
      (authenticate hash s q.auth).2 = some ctx ∧
      handle hash timestamptz s q =
        perform hash timestamptz (authenticate hash s q.auth).1 ctx q.op := by
  rw [handle, requireKey]
  cases hauth : authenticate hash s q.auth with
  | mk s' found =>
      cases found with
      | none => exact .inl ⟨_, rfl⟩
      | some ctx =>
          by_cases hperm : ctx.role.permits q.op.permission = true
          · simp only [if_pos hperm]
            exact .inr ⟨ctx, rfl, rfl, rfl⟩
          · simp only [if_neg hperm]
            exact .inl ⟨_, rfl⟩

end Cases

end Engramia.Keys
