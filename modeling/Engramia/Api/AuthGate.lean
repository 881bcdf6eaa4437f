import Engramia.Api.Oidc
import Engramia.Keys.Permissions

/-!
The gate before every route: what mode of authentication is configured, which credential a
request has, and whether the role that this gives it may do what the route asks. A request
without a context has passed without authentication, and every route is open to it.
-/
namespace Engramia.Api.AuthGate
open Oidc Keys

/-- The environment of the server. Whatever mode is none of the known ones is `auto`. -/
structure Env where
  authMode : String
  apiKeys : String
  allowNoAuth : String
  environment : String
  databaseUrl : String
  envAuthRole : Option String

/-- The strings of Python, and the order in which it goes through a set. -/
structure Strings where
  lower : String → String
  strip : String → String
  iterate : List String → List String
  mem_iterate : ∀ keys k, k ∈ iterate keys ↔ k ∈ keys

/-- The payload of a session's token. -/
structure CloudPayload where
  tenantId : String
  sub : String
  role : Option String

inductive ProjectLookup where
  | found (id : String)
  | missing
  | failed

/-- What the checks of the modes answer. There is a lookup of keys and of projects where the
server has a database. -/
structure Backends where
  oidc : String → Except Refusal AuthContext
  cloud : String → Except Refusal CloudPayload
  engine : Bool
  project : String → ProjectLookup
  key : String → Option AuthContext

/-- How a request is answered that does not reach its route. The comparison of strings raises on
characters beyond ASCII. -/
inductive Failure where
  | refused (reason : Refusal)
  | crashed
deriving DecidableEq

inductive Passage where
  | unauthenticated
  | authenticated (context : AuthContext)
deriving DecidableEq

section Definitions

def devNotAcknowledged : Refusal :=
  ⟨503, "Dev auth mode requires ENGRAMIA_ALLOW_NO_AUTH=true to be set " ++
    "as a deliberate safety acknowledgement."⟩
def noKeysConfigured : Refusal :=
  ⟨503, "No API keys configured. Set ENGRAMIA_API_KEYS, use ENGRAMIA_AUTH_MODE=db, " ++
    "or set ENGRAMIA_ALLOW_NO_AUTH=true to explicitly allow unauthenticated access."⟩
def notInProduction : Refusal :=
  ⟨503, "Authentication cannot be disabled in a production environment."⟩
def malformedAuthorization : Refusal :=
  ⟨401, "Missing or malformed Authorization header. Expected: Bearer <key>"⟩
def invalidApiKey : Refusal := ⟨401, "Invalid API key."⟩
def noAuthEngine : Refusal := ⟨503, "Authentication service not available."⟩
def noCloudEngine : Refusal :=
  ⟨500, "Cloud authentication unavailable: database engine not configured."⟩
def projectLookupError : Refusal := ⟨500, "Cloud authentication failed: project lookup error."⟩
def projectMissing : Refusal :=
  ⟨500, "Cloud authentication failed: default project missing for tenant."⟩
def notPermitted (role perm : String) : Refusal :=
  ⟨403, "Role '" ++ role ++ "' does not have permission '" ++ perm ++ "'."⟩

variable (p : Strings) (e : Env) (b : Backends)

/-- `_use_db_auth` -/
def useDbAuth : Bool :=
  if e.authMode ∈ ["env", "dev", "oidc"] then false
  else e.authMode = "db" || p.strip e.databaseUrl ≠ ""

/-- `_load_api_keys` -/
def loadApiKeys : List String :=
  ((e.apiKeys.splitOn ",").map p.strip).filter (· ≠ "")

def allowsNoAuth : Bool := p.lower e.allowNoAuth ∈ ["true", "1", "yes"]

def inProduction : Bool := p.strip (p.lower e.environment) ∈ ["production", "prod"]

def isAscii (s : String) : Bool := s.toList.all fun c => c.toNat < 128

/-- `hmac.compare_digest`, which raises on characters beyond ASCII. -/
def compareDigest (a b : String) : Option Bool :=
  if isAscii a && isAscii b then some (a = b) else none

/-- `any(hmac.compare_digest(token, key) for key in api_keys)` -/
def anyDigest (token : String) : List String → Option Bool
  | [] => some false
  | key :: keys =>
      match compareDigest token key with
      | none => none
      | some true => some true
      | some false => anyDigest token keys

def envContext : AuthContext where
  keyId := "env-key"
  tenantId := "default"
  projectId := "default"
  role :=
    let role := p.lower (e.envAuthRole.getD "owner")
    if role ∈ validRoles then role else "owner"

def envAuth (token : String) : Except Failure Passage :=
  match anyDigest token (p.iterate (loadApiKeys p e)) with
  | none => .error .crashed
  | some false => .error (.refused invalidApiKey)
  | some true => .ok (.authenticated (envContext p e))

def dbAuth (token : String) : Except Failure Passage :=
  if b.engine then
    match b.key token with
    | none => .error (.refused invalidApiKey)
    | some context => .ok (.authenticated context)
  else .error (.refused noAuthEngine)

def cloudContext (payload : CloudPayload) (projectId : String) : AuthContext where
  keyId := "cloud:" ++ payload.sub
  tenantId := payload.tenantId
  projectId := projectId
  role := payload.role.getD "owner"

/-- `_cloud_jwt_auth` -/
def cloudJwtAuth (token : String) : Except Failure Passage :=
  match b.cloud token with
  | .error reason => .error (.refused reason)
  | .ok payload =>
      if b.engine then
        match b.project payload.tenantId with
        | .failed => .error (.refused projectLookupError)
        | .missing => .error (.refused projectMissing)
        | .found id => .ok (.authenticated (cloudContext payload id))
      else .error (.refused noCloudEngine)

def oidcAuth (token : String) : Except Failure Passage :=
  match b.oidc token with
  | .error reason => .error (.refused reason)
  | .ok context => .ok (.authenticated context)

def startsWith (start s : String) : Bool := start.toList.isPrefixOf s.toList

/-- The token of the header, if it has one. -/
def bearer (header : String) : Option String :=
  if startsWith "Bearer " header then some (String.ofList (header.toList.drop 7)) else none

/-- A request that needs no authentication passes if the operator says so, except in
production. -/
def withoutAuth (unacknowledged : Refusal) : Except Failure Passage :=
  if allowsNoAuth p e then
    if inProduction p e then .error (.refused notInProduction) else .ok .unauthenticated
  else .error (.refused unacknowledged)

/-- `require_auth`, of the header's value, empty where there is none. -/
def requireAuth (header : String) : Except Failure Passage :=
  if e.authMode = "dev" then withoutAuth p e devNotAcknowledged
  else if useDbAuth p e = false ∧ loadApiKeys p e = [] then withoutAuth p e noKeysConfigured
  else
    match bearer header with
    | none => .error (.refused malformedAuthorization)
    | some token =>
        if e.authMode = "oidc" then oidcAuth b token
        else if startsWith "eyJ" token then cloudJwtAuth b token
        else if useDbAuth p e then dbAuth b token
        else envAuth p e token

/-- `PERMISSIONS.get(role, frozenset())` -/
def permissionsOf (role : String) : List String :=
  match [Role.reader, .editor, .admin, .owner].find? fun r => r.text = role with
  | none => []
  | some r => permissions r

/-- The check of `require_permission` -/
def checkPermission (perm : String) : Passage → Except Failure Passage
  | .unauthenticated => .ok .unauthenticated
  | .authenticated context =>
      if "*" ∈ permissionsOf context.role ∨ perm ∈ permissionsOf context.role then
        .ok (.authenticated context)
      else .error (.refused (notPermitted context.role perm))

/-- A request that reaches a route with a permission. -/
def access (header perm : String) : Except Failure Passage := do
  checkPermission perm (← requireAuth p e b header)

/-- The token is one of the keys, and no comparison before it raises. -/
def AmongKeys (token : String) (keys : List String) : Prop :=
  ∃ before after, keys = before ++ token :: after ∧ isAscii token ∧ ∀ key ∈ before, isAscii key

/-- There is something to authenticate against, or so the server thinks. -/
def Guarded : Prop := e.authMode ≠ "dev" ∧ (useDbAuth p e = true ∨ loadApiKeys p e ≠ [])

/-- What lets a request pass. -/
inductive Granted (header : String) : Passage → Prop
  | unauthenticated (hopen : ¬ Guarded p e) (hallowed : allowsNoAuth p e)
      (hproduction : inProduction p e = false) : Granted header .unauthenticated
  | oidc {token context} (hguarded : Guarded p e) (hbearer : bearer header = some token)
      (hmode : e.authMode = "oidc") (htoken : b.oidc token = .ok context) :
      Granted header (.authenticated context)
  | session {token payload projectId} (hguarded : Guarded p e)
      (hbearer : bearer header = some token) (hmode : e.authMode ≠ "oidc")
      (hshape : startsWith "eyJ" token) (htoken : b.cloud token = .ok payload)
      (hengine : b.engine) (hproject : b.project payload.tenantId = .found projectId) :
      Granted header (.authenticated (cloudContext payload projectId))
  | key {token context} (hbearer : bearer header = some token) (hmode : e.authMode ≠ "oidc")
      (hshape : startsWith "eyJ" token = false) (hdb : useDbAuth p e) (hengine : b.engine)
      (hkey : b.key token = some context) : Granted header (.authenticated context)
  | envKey {token} (hguarded : Guarded p e) (hbearer : bearer header = some token)
      (hmode : e.authMode ≠ "oidc") (hshape : startsWith "eyJ" token = false)
      (hdb : useDbAuth p e = false) (hkey : AmongKeys token (p.iterate (loadApiKeys p e))) :
      Granted header (.authenticated (envContext p e))

/-- The role of the context is one of the four, and it has the permission. -/
def Permits (perm : String) : Passage → Prop
  | .unauthenticated => True
  | .authenticated context => ∃ r : Role, r.text = context.role ∧ r.permits perm

end Definitions

section Access
variable {p : Strings} {e : Env} {b : Backends} {header perm : String} {passage : Passage}

theorem anyDigest_iff {token : String} {keys : List String} :
    anyDigest token keys = some true ↔ AmongKeys token keys := by
  induction keys with
  | nil => simp [anyDigest, AmongKeys]
  | cons key keys ih =>
      rw [anyDigest, compareDigest]
      by_cases hascii : isAscii token && isAscii key
      · rw [if_pos hascii]
        rw [Bool.and_eq_true] at hascii
        by_cases heq : token = key
        · simp only [heq, decide_true, true_iff]
          exact ⟨[], keys, rfl, hascii.2, by simp⟩
        · simp only [heq, decide_false, ih]
          refine ⟨?_, ?_⟩
          · intro h
            obtain ⟨before, after, hkeys, htoken, hbefore⟩ := h
            refine ⟨key :: before, after, by rw [hkeys]; rfl, htoken, ?_⟩
            exact List.forall_mem_cons.mpr ⟨hascii.2, hbefore⟩
          · intro h
            obtain ⟨before, after, hkeys, htoken, hbefore⟩ := h
            cases before with
            | nil =>
                injection hkeys with hkey
                exact absurd hkey.symm heq
            | cons k before =>
                injection hkeys with _ hkeys
                exact ⟨before, after, hkeys, htoken, (List.forall_mem_cons.mp hbefore).2⟩
      · rw [if_neg hascii]
        refine ⟨?_, ?_⟩
        · intro h
          cases h
        intro h
        obtain ⟨before, after, hkeys, htoken, hbefore⟩ := h
        exfalso
        apply hascii
        rw [Bool.and_eq_true]
        refine ⟨htoken, ?_⟩
        cases before with
        | nil =>
            injection hkeys with hkey
            exact hkey ▸ htoken
        | cons k before =>
            injection hkeys with hkey
            exact hkey ▸ (List.forall_mem_cons.mp hbefore).1

theorem withoutAuth_iff {reason : Refusal} : withoutAuth p e reason = .ok passage ↔
    allowsNoAuth p e ∧ inProduction p e = false ∧ passage = .unauthenticated := by
  rw [withoutAuth]
  cases allowsNoAuth p e with
  | false => simp
  | true =>
      cases inProduction p e with
      | true => simp
      | false => simp [eq_comm]

theorem not_guarded_iff : ¬ Guarded p e ↔
    e.authMode = "dev" ∨ useDbAuth p e = false ∧ loadApiKeys p e = [] := by
  rw [Guarded]
  cases useDbAuth p e with
  | false =>
      simp only [Bool.false_eq_true, false_or, true_and]
      tauto
  | true =>
      simp only [true_or, and_true, Bool.true_eq_false, false_and, or_false, not_not]

theorem guarded_of_useDbAuth (h : useDbAuth p e) : Guarded p e := by
  refine ⟨?_, Or.inl h⟩
  intro hdev
  rw [useDbAuth, if_pos (by simp [hdev])] at h
  cases h

theorem requireAuth_unguarded (b : Backends) (header : String) (h : ¬ Guarded p e) :
    ∃ reason, requireAuth p e b header = withoutAuth p e reason := by
  rw [requireAuth]
  by_cases hdev : e.authMode = "dev"
  · exact ⟨_, if_pos hdev⟩
  · rw [if_neg hdev, if_pos ((not_guarded_iff.mp h).resolve_left hdev)]
    exact ⟨_, rfl⟩

/-- The credential of a request decides where there is something to authenticate against. -/
def authenticate (p : Strings) (e : Env) (b : Backends) (token : String) :
    Except Failure Passage :=
  if e.authMode = "oidc" then oidcAuth b token
  else if startsWith "eyJ" token then cloudJwtAuth b token
  else if useDbAuth p e then dbAuth b token
  else envAuth p e token

theorem requireAuth_guarded (h : Guarded p e) : requireAuth p e b header =
    match bearer header with
    | none => .error (.refused malformedAuthorization)
    | some token => authenticate p e b token := by
  have hnot : ¬ (e.authMode = "dev" ∨ useDbAuth p e = false ∧ loadApiKeys p e = []) :=
    fun hopen => not_guarded_iff.mpr hopen h
  rw [not_or] at hnot
  rw [requireAuth, if_neg hnot.1, if_neg hnot.2]
  rfl

theorem oidcAuth_iff {token : String} : oidcAuth b token = .ok passage ↔
    ∃ context, b.oidc token = .ok context ∧ passage = .authenticated context := by
  rw [oidcAuth]
  cases b.oidc token with
  | error reason => simp
  | ok context => simp [eq_comm]

theorem cloudJwtAuth_iff {token : String} : cloudJwtAuth b token = .ok passage ↔
    ∃ payload projectId, b.cloud token = .ok payload ∧ b.engine ∧
      b.project payload.tenantId = .found projectId ∧
        passage = .authenticated (cloudContext payload projectId) := by
  rw [cloudJwtAuth]
  cases b.cloud token with
  | error reason => simp
  | ok payload =>
      cases b.engine with
      | false => simp
      | true =>
          cases hproject : b.project payload.tenantId with
          | found id => simp [hproject, eq_comm]
          | missing => simp [hproject]
          | failed => simp [hproject]

theorem dbAuth_iff {token : String} : dbAuth b token = .ok passage ↔
    ∃ context, b.engine ∧ b.key token = some context ∧ passage = .authenticated context := by
  rw [dbAuth]
  cases b.engine with
  | false => simp
  | true =>
      cases b.key token with
      | none => simp
      | some context => simp [eq_comm]

theorem envAuth_iff {token : String} : envAuth p e token = .ok passage ↔
    AmongKeys token (p.iterate (loadApiKeys p e)) ∧ passage = .authenticated (envContext p e) := by
  rw [← anyDigest_iff, envAuth]
  cases anyDigest token (p.iterate (loadApiKeys p e)) with
  | none => simp
  | some found =>
      cases found with
      | false => simp
      | true => simp [eq_comm]

theorem requireAuth_iff :
    requireAuth p e b header = .ok passage ↔ Granted p e b header passage := by
  refine ⟨?_, ?_⟩
  · intro h
    by_cases hguarded : Guarded p e
    · rw [requireAuth_guarded hguarded] at h
      cases hbearer : bearer header with
      | none =>
          rw [hbearer] at h
          cases h
      | some token =>
          simp only [hbearer, authenticate] at h
          split_ifs at h with hmode hshape hdb
          · obtain ⟨context, htoken, rfl⟩ := oidcAuth_iff.mp h
            exact .oidc hguarded hbearer hmode htoken
          · obtain ⟨payload, projectId, htoken, hengine, hproject, rfl⟩ := cloudJwtAuth_iff.mp h
            exact .session hguarded hbearer hmode hshape htoken hengine hproject
          · obtain ⟨context, hengine, hkey, rfl⟩ := dbAuth_iff.mp h
            exact .key hbearer hmode (Bool.eq_false_iff.mpr hshape) hdb hengine hkey
          · obtain ⟨hkey, rfl⟩ := envAuth_iff.mp h
            exact .envKey hguarded hbearer hmode (Bool.eq_false_iff.mpr hshape)
              (Bool.eq_false_iff.mpr hdb) hkey
    · obtain ⟨reason, hopen⟩ := requireAuth_unguarded b header hguarded
      rw [hopen] at h
      obtain ⟨hallowed, hproduction, rfl⟩ := withoutAuth_iff.mp h
      exact .unauthenticated hguarded hallowed hproduction
  · intro h
    cases h with
    | unauthenticated hopen hallowed hproduction =>
        obtain ⟨reason, hunguarded⟩ := requireAuth_unguarded b header hopen
        rw [hunguarded]
        exact withoutAuth_iff.mpr ⟨hallowed, hproduction, rfl⟩
    | oidc hguarded hbearer hmode htoken =>
        rw [requireAuth_guarded hguarded]
        simp only [hbearer, authenticate, if_pos hmode]
        exact oidcAuth_iff.mpr ⟨_, htoken, rfl⟩
    | session hguarded hbearer hmode hshape htoken hengine hproject =>
        rw [requireAuth_guarded hguarded]
        simp only [hbearer, authenticate, if_neg hmode, hshape, if_true]
        exact cloudJwtAuth_iff.mpr ⟨_, _, htoken, hengine, hproject, rfl⟩
    | key hbearer hmode hshape hdb hengine hkey =>
        rw [requireAuth_guarded (guarded_of_useDbAuth hdb)]
        simp only [hbearer, authenticate, if_neg hmode, hshape, hdb, if_true, Bool.false_eq_true,
          if_false]
        exact dbAuth_iff.mpr ⟨_, hengine, hkey, rfl⟩
    | envKey hguarded hbearer hmode hshape hdb hkey =>
        rw [requireAuth_guarded hguarded]
        simp only [hbearer, authenticate, if_neg hmode, hshape, hdb, Bool.false_eq_true, if_false]
        exact envAuth_iff.mpr ⟨hkey, rfl⟩

theorem mem_permissionsOf {role perm : String} :
    perm ∈ permissionsOf role ↔ ∃ r : Role, r.text = role ∧ perm ∈ permissions r := by
  refine ⟨?_, ?_⟩
  · intro h
    rw [permissionsOf] at h
    split at h
    · cases h
    case h_2 r hr =>
        have htext := List.find?_some hr
        exact ⟨r, by simpa using htext, h⟩
  · intro h
    obtain ⟨r, hr, hperm⟩ := h
    rw [← hr]
    cases r with
    | reader => exact hperm
    | editor => exact hperm
    | admin => exact hperm
    | owner => exact hperm

theorem checkPermission_iff {passed : Passage} : checkPermission perm passed = .ok passage ↔
    passage = passed ∧ Permits perm passed := by
  cases passed with
  | unauthenticated => simp [checkPermission, Permits, eq_comm]
  | authenticated context =>
      have hpermits : ("*" ∈ permissionsOf context.role ∨ perm ∈ permissionsOf context.role) ↔
          ∃ r : Role, r.text = context.role ∧ r.permits perm := by
        simp only [mem_permissionsOf, Role.permits, Bool.or_eq_true, decide_eq_true_eq]
        refine ⟨?_, ?_⟩
        · intro h
          cases h with
          | inl h =>
              obtain ⟨r, hr, hperm⟩ := h
              exact ⟨r, hr, Or.inl hperm⟩
          | inr h =>
              obtain ⟨r, hr, hperm⟩ := h
              exact ⟨r, hr, Or.inr hperm⟩
        · intro h
          obtain ⟨r, hr, hperm⟩ := h
          exact hperm.imp (fun h => ⟨r, hr, h⟩) fun h => ⟨r, hr, h⟩
      rw [checkPermission]
      by_cases h : "*" ∈ permissionsOf context.role ∨ perm ∈ permissionsOf context.role
      · rw [if_pos h]
        simp only [Except.ok.injEq, Permits, hpermits.mp h, and_true]
        exact eq_comm
      · rw [if_neg h]
        simp only [Permits, mt hpermits.mpr h, and_false, iff_false]
        intro hok
        cases hok

theorem access_eq_ok : access p e b header perm = .ok passage ↔
    Granted p e b header passage ∧ Permits perm passage := by
  rw [← requireAuth_iff, access]
  cases requireAuth p e b header with
  | error failure => simp [bind, Except.bind]
  | ok passed =>
      refine checkPermission_iff.trans ?_
      simp only [Except.ok.injEq]
      refine ⟨?_, ?_⟩
      · intro h
        exact ⟨h.1.symm, h.1 ▸ h.2⟩
      · intro h
        exact ⟨h.1.symm, h.1 ▸ h.2⟩

/-- A request reaches a route exactly if something lets it pass and its role permits what the
route asks. Nothing passes without authentication in production, and where tokens are the
provider's but no keys are configured, no credential makes a difference. -/
theorem access_iff :
    (access p e b header perm = .ok passage ↔
      Granted p e b header passage ∧ Permits perm passage) ∧
    (inProduction p e → access p e b header perm = .ok passage →
      ∃ context, ∃ r : Role, passage = .authenticated context ∧ r.text = context.role ∧
        r.permits perm) ∧
    (e.authMode = "oidc" → loadApiKeys p e = [] →
      ∀ header', access p e b header perm = access p e b header' perm) := by
  refine ⟨access_eq_ok, ?_, ?_⟩
  · intro hproduction haccess
    obtain ⟨hgranted, hpermits⟩ := access_eq_ok.mp haccess
    cases passage with
    | unauthenticated =>
        cases hgranted with
        | unauthenticated _ _ hnot =>
            rw [hproduction] at hnot
            cases hnot
    | authenticated context =>
        obtain ⟨r, hr, hperm⟩ := hpermits
        exact ⟨context, r, rfl, hr, hperm⟩
  · intro hmode hkeys header'
    have hdev : e.authMode ≠ "dev" := by simp [hmode]
    have hdb : useDbAuth p e = false := by rw [useDbAuth, if_pos (by simp [hmode])]
    simp only [access, requireAuth, if_neg hdev, hdb, hkeys, and_self, if_true]

end Access

end Engramia.Api.AuthGate
