import Engramia.Library.OrderedDict
import Engramia.Library.Run
import Engramia.Library.Tally

/-!
Tokens of an identity provider. A token is checked with the key that the provider publishes under
the key id of the token. The keys are cached for an hour, and each request that finds them older
fetches them by itself, outside the lock, so that answers may be stored in another order than
they were asked for. What the provider publishes at a time is a function of it. The headers and
the signatures of tokens are the library's.
-/
namespace Engramia.Api.Oidc
open Library

/-- An `HTTPException` -/
structure Refusal where
  statusCode : ℕ
  detail : String
deriving DecidableEq

/-- A claim as its `str`, or null. -/
abbrev Claims : Type := String → Option (Option String)

structure Config where
  issuer : String
  audience : String
  roleClaim : String
  defaultRole : String
  tenantClaim : String
  projectClaim : String

structure AuthContext where
  keyId : String
  tenantId : String
  projectId : String
  role : String
deriving DecidableEq

/-- A JWK with its `kid`, where it has one. -/
abbrev Jwks (κ : Type) : Type := List (Option String × κ)

/-- The library for tokens: the key id and the algorithm of a header that can be read, and the
claims of a token that is valid under a key at a time. -/
structure Jwt (κ : Type) where
  header : String → Option (Option String × String)
  loads : String → κ → Bool
  verify : Config → String → κ → String → ℕ → Option Claims

inductive Answer (κ : Type) where
  | keys
  /-- An error that the refresh catches. -/
  | unreachable
  /-- An answer that is no set of keys, whose error goes to the caller. -/
  | malformed

/-- How far a request with a token has come. Its key id and algorithm are those of the header,
and its time is the one that the age of the cache is measured by. -/
inductive Phase (κ : Type) where
  | opened (token : String)
  | checking (token kid alg : String) (now : ℕ)
  | fetching (token kid alg : String) (now : ℕ)
  | fetched (token kid alg : String) (now : ℕ) (keys : OrderedDict String κ)
  | ready (token kid alg : String) (now : ℕ) (refreshed : Bool)
  | found (token kid alg : String) (now : ℕ) (refreshed : Bool) (key : Option κ)
  | refused (reason : Refusal)
  | accepted (token kid alg : String) (now : ℕ) (refreshed : Bool) (key : κ) (claims : Claims)
      (context : AuthContext)
  | crashed

structure KeyStore (κ : Type) where
  time : ℕ
  jwks : OrderedDict String κ
  fetchedAt : ℕ
  requests : List (Phase κ)

inductive Event (κ : Type) where
  | tick (ticks : ℕ)
  | request (token : String)
  | open (request : ℕ)
  | check (request : ℕ)
  | answer (request : ℕ) (answer : Answer κ)
  | store (request : ℕ)
  | get (request : ℕ)
  | decide (request : ℕ)

section Definitions

/-- `_JWKS_TTL`, in microseconds. -/
def jwksTtl : ℕ := 3600 * 1000000

def validRoles : List String := ["owner", "admin", "editor", "reader"]

/-- `_ALLOWED_ALGORITHMS` -/
def allowedAlgorithms : List String :=
  ["RS256", "RS384", "RS512", "ES256", "ES384", "ES512", "PS256", "PS384", "PS512"]

def noIssuer : Refusal :=
  ⟨503, "OIDC auth is enabled but ENGRAMIA_OIDC_ISSUER is not configured."⟩
def noTenantClaim : Refusal :=
  ⟨503, "OIDC auth is enabled but ENGRAMIA_OIDC_TENANT_CLAIM is not configured."⟩
def malformedHeader : Refusal := ⟨401, "Invalid token."⟩
def noKid : Refusal := ⟨401, "Token missing 'kid' header."⟩
def notPermitted (alg : String) : Refusal :=
  ⟨401, "Signing algorithm '" ++ alg ++ "' is not permitted."⟩
def keyNotFound : Refusal := ⟨401, "Token signing key not found."⟩
def invalidKey : Refusal := ⟨401, "Invalid signing key."⟩
def validationFailed : Refusal := ⟨401, "Token validation failed."⟩
def tenantMissing (claim : String) : Refusal :=
  ⟨401, "Token is missing the required tenant claim '" ++ claim ++ "'."⟩

/-- `{k["kid"]: k for k in keys if "kid" in k}` -/
def keysOf {κ : Type} (published : Jwks κ) : OrderedDict String κ :=
  published.foldl (fun d k => match k.1 with
    | some kid => d.set kid k.2
    | none => d) OrderedDict.empty

/-- `str(claims.get(name, default))` -/
def claimStr (claims : Claims) (name default : String) : String :=
  match claims name with
  | none => default
  | some none => "None"
  | some (some s) => s

def claimRole (cfg : Config) (lower : String → String) (claims : Claims) : String :=
  let role := lower (claimStr claims cfg.roleClaim cfg.defaultRole)
  if role ∈ validRoles then role else "reader"

def claimProject (cfg : Config) (claims : Claims) : String :=
  if cfg.projectClaim = "" then "default" else ((claims cfg.projectClaim).join).getD "default"

/-- What `oidc_auth` makes of the claims of a valid token. -/
def contextOf (cfg : Config) (lower : String → String) (claims : Claims) :
    Except Refusal AuthContext :=
  match (claims cfg.tenantClaim).join with
  | none => .error (tenantMissing cfg.tenantClaim)
  | some tenantId =>
      .ok ⟨claimStr claims "sub" "oidc-unknown", tenantId, claimProject cfg claims,
        claimRole cfg lower claims⟩

variable {κ : Type} (cfg : Config) (lower : String → String) (jwt : Jwt κ)
  (published : ℕ → Jwks κ)

/-- The checks before the key is looked for. -/
def openToken (now : ℕ) (token : String) : Phase κ :=
  if cfg.issuer = "" then .refused noIssuer
  else if cfg.tenantClaim = "" then .refused noTenantClaim
  else
    match jwt.header token with
    | none => .refused malformedHeader
    | some (none, _) => .refused noKid
    | some (some kid, alg) =>
        if alg ∈ allowedAlgorithms then .checking token kid alg now
        else .refused (notPermitted alg)

def decideToken (time : ℕ) (token kid alg : String) (now : ℕ) (refreshed : Bool) :
    Option κ → Phase κ
  | none => .refused keyNotFound
  | some key =>
      if jwt.loads alg key then
        match jwt.verify cfg token key alg time with
        | none => .refused validationFailed
        | some claims =>
            match contextOf cfg lower claims with
            | .error reason => .refused reason
            | .ok context => .accepted token kid alg now refreshed key claims context
      else .refused invalidKey

namespace KeyStore
variable (s : KeyStore κ)

/-- The cache is not empty and younger than an hour. -/
def Fresh (now : ℕ) : Prop := now < s.fetchedAt + jwksTtl ∧ s.jwks.entries ≠ []

instance (now : ℕ) : Decidable (s.Fresh now) := by
  unfold Fresh
  infer_instance

def setPhase (i : ℕ) (phase : Phase κ) : KeyStore κ := { s with requests := s.requests.set i phase }

def step (s : KeyStore κ) : Event κ → KeyStore κ
  | .tick ticks => { s with time := s.time + ticks }
  | .request token => { s with requests := s.requests ++ [.opened token] }
  | .open i =>
      match s.requests[i]? with
      | some (.opened token) => s.setPhase i (openToken cfg jwt s.time token)
      | _ => s
  | .check i =>
      match s.requests[i]? with
      | some (.checking token kid alg now) =>
          s.setPhase i (if s.Fresh now then .ready token kid alg now true
            else .fetching token kid alg now)
      | _ => s
  | .answer i answer =>
      match s.requests[i]?, answer with
      | some (.fetching token kid alg now), .keys =>
          s.setPhase i (.fetched token kid alg now (keysOf (published s.time)))
      | some (.fetching token kid alg now), .unreachable =>
          s.setPhase i (.ready token kid alg now false)
      | some (.fetching _ _ _ _), .malformed => s.setPhase i .crashed
      | _, _ => s
  | .store i =>
      match s.requests[i]? with
      | some (.fetched token kid alg now keys) =>
          { s with jwks := keys, fetchedAt := now }.setPhase i (.ready token kid alg now true)
      | _ => s
  | .get i =>
      match s.requests[i]? with
      | some (.ready token kid alg now refreshed) =>
          s.setPhase i (.found token kid alg now refreshed (s.jwks.get? kid))
      | _ => s
  | .decide i =>
      match s.requests[i]? with
      | some (.found token kid alg now refreshed key) =>
          s.setPhase i (decideToken cfg lower jwt s.time token kid alg now refreshed key)
      | _ => s

end KeyStore

/-- What a fetch brings is stored no longer after its request came than the lag. -/
def InTime {κ : Type} (lag : ℕ) (s : KeyStore κ) : Event κ → Prop
  | .store i =>
      match s.requests[i]? with
      | some (.fetched _ _ _ now _) => s.time ≤ now + lag
      | _ => True
  | _ => True

/-- Keys that were published at some time up to now, or none. -/
def Once {κ : Type} (published : ℕ → Jwks κ) (time : ℕ) (keys : OrderedDict String κ) : Prop :=
  keys = OrderedDict.empty ∨ ∃ served ≤ time, keys = keysOf (published served)

/-- Keys that were published at a time that the request is at most an hour behind, or the lag. -/
def Lately {κ : Type} (lag : ℕ) (published : ℕ → Jwks κ) (time now : ℕ)
    (keys : OrderedDict String κ) : Prop :=
  ∃ served ≤ time, now ≤ served + max jwksTtl lag ∧ keys = keysOf (published served)

/-- A token's key is looked up in keys that were published lately, or once where the provider
could not be reached. -/
def LookedUp {κ : Type} (lag : ℕ) (published : ℕ → Jwks κ) (time now : ℕ) (refreshed : Bool)
    (kid : String) (key : Option κ) : Prop :=
  ∃ keys : OrderedDict String κ, key = keys.get? kid ∧ Once published time keys ∧
    (refreshed = true → Lately lag published time now keys)

def Headed {κ : Type} (jwt : Jwt κ) (token kid alg : String) : Prop :=
  jwt.header token = some (some kid, alg) ∧ alg ∈ allowedAlgorithms

/-- An accepted token is valid under the key that it names, and the context is what its claims
say. -/
def Answered {κ : Type} (lag : ℕ) (cfg : Config) (lower : String → String) (jwt : Jwt κ)
    (published : ℕ → Jwks κ) (time : ℕ) : Phase κ → Prop
  | .found token kid alg now refreshed key =>
      Headed jwt token kid alg ∧ LookedUp lag published time now refreshed kid key
  | .accepted token kid alg now refreshed key claims context =>
      Headed jwt token kid alg ∧ LookedUp lag published time now refreshed kid (some key) ∧
        (∃ t ≤ time, jwt.verify cfg token key alg t = some claims) ∧
        (claims cfg.tenantClaim).join = some context.tenantId ∧ context.role ∈ validRoles ∧
        contextOf cfg lower claims = .ok context
  | _ => True

end Definitions

section Invariant
variable {κ : Type} {cfg : Config} {lower : String → String} {jwt : Jwt κ}
  {published : ℕ → Jwks κ} {s : KeyStore κ} {lag : ℕ}

/-- The cache holds what was published after the time that it is dated by. -/
def Dated (published : ℕ → Jwks κ) (s : KeyStore κ) : Prop :=
  ∃ served ≤ s.time, s.fetchedAt ≤ served ∧ s.jwks = keysOf (published served)

/-- What a request that is under way knows. -/
def PhaseRight (lag : ℕ) (cfg : Config) (lower : String → String) (jwt : Jwt κ)
    (published : ℕ → Jwks κ) (s : KeyStore κ) : Phase κ → Prop
  | .opened _ | .refused _ | .crashed => True
  | .checking token kid alg now | .fetching token kid alg now =>
      Headed jwt token kid alg ∧ now ≤ s.time
  | .fetched token kid alg now keys =>
      Headed jwt token kid alg ∧
        ∃ served ≤ s.time, now ≤ served ∧ keys = keysOf (published served)
  | .ready token kid alg now refreshed =>
      Headed jwt token kid alg ∧ now ≤ s.time ∧
        (refreshed = true → Dated published s ∧ now ≤ s.fetchedAt + max jwksTtl lag)
  | phase => Answered lag cfg lower jwt published s.time phase

structure Right (lag : ℕ) (cfg : Config) (lower : String → String) (jwt : Jwt κ)
    (published : ℕ → Jwks κ) (s : KeyStore κ) : Prop where
  cache : s.jwks = OrderedDict.empty ∨ Dated published s
  requests : ∀ phase ∈ s.requests, PhaseRight lag cfg lower jwt published s phase

theorem Once.later {time time' : ℕ} {keys : OrderedDict String κ} (h : Once published time keys)
    (htime : time ≤ time') : Once published time' keys := by
  refine h.imp_right ?_
  intro h
  obtain ⟨served, hserved, hkeys⟩ := h
  exact ⟨served, hserved.trans htime, hkeys⟩

theorem LookedUp.later {time time' now : ℕ} {refreshed : Bool} {kid : String} {key : Option κ}
    (h : LookedUp lag published time now refreshed kid key) (htime : time ≤ time') :
    LookedUp lag published time' now refreshed kid key := by
  obtain ⟨keys, hkey, honce, hlately⟩ := h
  refine ⟨keys, hkey, honce.later htime, ?_⟩
  intro hrefreshed
  obtain ⟨served, hserved, hrest⟩ := hlately hrefreshed
  exact ⟨served, hserved.trans htime, hrest⟩

theorem Answered.later {time time' : ℕ} {phase : Phase κ}
    (h : Answered lag cfg lower jwt published time phase) (htime : time ≤ time') :
    Answered lag cfg lower jwt published time' phase := by
  cases phase with
  | found token kid alg now refreshed key => exact ⟨h.1, h.2.later htime⟩
  | accepted token kid alg now refreshed key claims context =>
      obtain ⟨hheaded, hkey, ⟨t, ht, hverify⟩, hrest⟩ := h
      exact ⟨hheaded, hkey.later htime, ⟨t, ht.trans htime, hverify⟩, hrest⟩
  | _ => trivial

theorem PhaseRight.later {s' : KeyStore κ} {phase : Phase κ}
    (h : PhaseRight lag cfg lower jwt published s phase) (htime : s.time ≤ s'.time)
    (hcache : ∀ now ≤ s.time, Dated published s ∧ now ≤ s.fetchedAt + max jwksTtl lag →
      Dated published s' ∧ now ≤ s'.fetchedAt + max jwksTtl lag) :
    PhaseRight lag cfg lower jwt published s' phase := by
  cases phase with
  | opened token => trivial
  | refused reason => trivial
  | crashed => trivial
  | checking token kid alg now => exact ⟨h.1, h.2.trans htime⟩
  | fetching token kid alg now => exact ⟨h.1, h.2.trans htime⟩
  | fetched token kid alg now keys =>
      obtain ⟨hheaded, served, hserved, hrest⟩ := h
      exact ⟨hheaded, served, hserved.trans htime, hrest⟩
  | ready token kid alg now refreshed =>
      exact ⟨h.1, h.2.1.trans htime, fun hready => hcache now h.2.1 (h.2.2 hready)⟩
  | found token kid alg now refreshed key =>
      have hanswered : Answered lag cfg lower jwt published s.time
        (.found token kid alg now refreshed key) := h
      exact hanswered.later htime
  | accepted token kid alg now refreshed key claims context =>
      have hanswered : Answered lag cfg lower jwt published s.time
        (.accepted token kid alg now refreshed key claims context) := h
      exact hanswered.later htime

theorem Dated.once (h : s.jwks = OrderedDict.empty ∨ Dated published s) :
    Once published s.time s.jwks := by
  refine h.imp_right ?_
  intro h
  obtain ⟨served, hserved, _, hkeys⟩ := h
  exact ⟨served, hserved, hkeys⟩

theorem headed_openToken {now : ℕ} {token : String} (hnow : now ≤ s.time) :
    PhaseRight lag cfg lower jwt published s (openToken cfg jwt now token) := by
  rw [openToken]
  split_ifs
  · trivial
  · trivial
  · split
    · trivial
    · trivial
    case h_3 kid alg hheader =>
        split_ifs with halg
        · exact ⟨⟨hheader, halg⟩, hnow⟩
        · trivial

theorem contextOf_eq_ok {claims : Claims} {context : AuthContext}
    (h : contextOf cfg lower claims = .ok context) :
    (claims cfg.tenantClaim).join = some context.tenantId ∧ context.role ∈ validRoles := by
  rw [contextOf] at h
  split at h
  · cases h
  case h_2 tenantId htenant =>
      cases h
      refine ⟨htenant, ?_⟩
      dsimp only [claimRole]
      split_ifs with hrole
      · exact hrole
      · decide

theorem answered_decideToken {token kid alg : String} {now : ℕ} {refreshed : Bool}
    {key : Option κ} (hheaded : Headed jwt token kid alg)
    (hkey : LookedUp lag published s.time now refreshed kid key) :
    PhaseRight lag cfg lower jwt published s
      (decideToken cfg lower jwt s.time token kid alg now refreshed key) := by
  cases key with
  | none => trivial
  | some key =>
      rw [decideToken]
      split_ifs
      · split
        · trivial
        case h_2 claims hverify =>
            split
            · trivial
            case h_2 context hcontext =>
                have hok := contextOf_eq_ok hcontext
                exact ⟨hheaded, hkey, ⟨s.time, le_rfl, hverify⟩, hok.1, hok.2, hcontext⟩
      · trivial

namespace Right

theorem setPhase (h : Right lag cfg lower jwt published s) {i : ℕ} {phase : Phase κ}
    (hphase : PhaseRight lag cfg lower jwt published s phase) :
    Right lag cfg lower jwt published (s.setPhase i phase) where
  cache := h.cache
  requests := forall_mem_set h.requests hphase

theorem store (h : Right lag cfg lower jwt published s) {i : ℕ} {token kid alg : String} {now : ℕ}
    {keys : OrderedDict String κ}
    (hphase : s.requests[i]? = some (.fetched token kid alg now keys))
    (htime : s.time ≤ now + lag) :
    Right lag cfg lower jwt published
      ({ s with jwks := keys, fetchedAt := now }.setPhase i (.ready token kid alg now true)) := by
  obtain ⟨hheaded, served, hserved, hnow, hkeys⟩ := h.requests _ (List.mem_of_getElem? hphase)
  have hdated : Dated published { s with jwks := keys, fetchedAt := now } :=
    ⟨served, hserved, hnow, hkeys⟩
  refine ⟨Or.inr hdated, forall_mem_set ?_ ?_⟩
  · intro phase hmem
    refine (h.requests phase hmem).later le_rfl ?_
    intro now' hnow' _
    exact ⟨hdated, hnow'.trans (htime.trans (Nat.add_le_add_left (le_max_right _ _) now))⟩
  · refine ⟨hheaded, hnow.trans hserved, fun _ => ⟨hdated, Nat.le_add_right _ _⟩⟩

theorem check (h : Right lag cfg lower jwt published s) {i : ℕ} {token kid alg : String} {now : ℕ}
    (hphase : s.requests[i]? = some (.checking token kid alg now)) :
    Right lag cfg lower jwt published (s.setPhase i
      (if s.Fresh now then .ready token kid alg now true else .fetching token kid alg now)) := by
  have hright : PhaseRight lag cfg lower jwt published s (.checking token kid alg now) :=
    h.requests _ (List.mem_of_getElem? hphase)
  apply h.setPhase
  split_ifs with hfresh
  · refine ⟨hright.1, hright.2, fun _ => ⟨h.cache.resolve_left ?_, ?_⟩⟩
    · intro hempty
      exact hfresh.2 (by rw [hempty]; rfl)
    · exact hfresh.1.le.trans (Nat.add_le_add_left (le_max_left _ _) s.fetchedAt)
  · exact hright

theorem get (h : Right lag cfg lower jwt published s) {i : ℕ} {token kid alg : String} {now : ℕ}
    {refreshed : Bool} (hphase : s.requests[i]? = some (.ready token kid alg now refreshed)) :
    Right lag cfg lower jwt published
      (s.setPhase i (.found token kid alg now refreshed (s.jwks.get? kid))) := by
  obtain ⟨hheaded, _, hrefreshed⟩ := h.requests _ (List.mem_of_getElem? hphase)
  apply h.setPhase
  refine ⟨hheaded, s.jwks, rfl, Dated.once h.cache, ?_⟩
  intro hsuccess
  obtain ⟨⟨served, hserved, hdate, hkeys⟩, hyoung⟩ := hrefreshed hsuccess
  exact ⟨served, hserved, by omega, hkeys⟩

theorem step (h : Right lag cfg lower jwt published s) (e : Event κ) (he : InTime lag s e) :
    Right lag cfg lower jwt published (s.step cfg lower jwt published e) := by
  cases e with
  | tick ticks =>
      have htime : s.time ≤ s.time + ticks := Nat.le_add_right _ _
      have hdated : Dated published s → Dated published { s with time := s.time + ticks } := by
        intro hdated
        obtain ⟨served, hserved, hrest⟩ := hdated
        exact ⟨served, hserved.trans htime, hrest⟩
      refine ⟨h.cache.imp_right hdated, ?_⟩
      intro phase hmem
      exact (h.requests phase hmem).later htime fun _ _ hcache => ⟨hdated hcache.1, hcache.2⟩
  | request token => exact ⟨h.cache, forall_mem_append_singleton h.requests trivial⟩
  | «open» i =>
      simp only [KeyStore.step]
      split
      · exact h.setPhase (headed_openToken le_rfl)
      · exact h
  | check i =>
      simp only [KeyStore.step]
      split
      case h_1 hphase => exact h.check hphase
      case h_2 => exact h
  | answer i answer =>
      simp only [KeyStore.step]
      split
      case h_1 token kid alg now hphase =>
          have hright : PhaseRight lag cfg lower jwt published s (.fetching token kid alg now) :=
            h.requests _ (List.mem_of_getElem? hphase)
          exact h.setPhase ⟨hright.1, s.time, le_rfl, hright.2, rfl⟩
      case h_2 token kid alg now hphase =>
          have hright : PhaseRight lag cfg lower jwt published s (.fetching token kid alg now) :=
            h.requests _ (List.mem_of_getElem? hphase)
          exact h.setPhase ⟨hright.1, hright.2, fun hnever => by cases hnever⟩
      case h_3 => exact h.setPhase trivial
      case h_4 => exact h
  | store i =>
      simp only [KeyStore.step]
      split
      case h_1 token kid alg now keys hphase =>
          simp only [InTime, hphase] at he
          exact h.store hphase he
      case h_2 => exact h
  | get i =>
      simp only [KeyStore.step]
      split
      case h_1 hphase => exact h.get hphase
      case h_2 => exact h
  | decide i =>
      simp only [KeyStore.step]
      split
      case h_1 token kid alg now refreshed key hphase =>
          have hright : Answered lag cfg lower jwt published s.time
              (.found token kid alg now refreshed key) :=
            h.requests _ (List.mem_of_getElem? hphase)
          exact h.setPhase (answered_decideToken hright.1 hright.2)
      case h_2 => exact h

theorem answered (h : Right lag cfg lower jwt published s) :
    ∀ phase ∈ s.requests, Answered lag cfg lower jwt published s.time phase := by
  intro phase hmem
  have hright := h.requests phase hmem
  cases phase with
  | found token kid alg now refreshed key => exact hright
  | accepted token kid alg now refreshed key claims context => exact hright
  | _ => trivial

end Right

end Invariant

section Runs
variable {κ : Type}

/-- The process has started and nothing is cached. -/
def started : KeyStore κ := ⟨0, OrderedDict.empty, 0, []⟩

/-- In a run whose fetches are stored within a lag, a token's key is looked up in keys that the
provider published at most an hour, or the lag, before its request, unless its own fetch failed,
and a token that is accepted is valid under that key, with an allowed algorithm, and gets the
context of its claims. -/
theorem tokens_answered (lag : ℕ) (cfg : Config) (lower : String → String) (jwt : Jwt κ)
    (published : ℕ → Jwks κ) {events : List (Event κ)}
    (h : AllSteps (KeyStore.step cfg lower jwt published) (InTime lag) started events) :
    Always (KeyStore.step cfg lower jwt published)
      (fun s => ∀ phase ∈ s.requests, Answered lag cfg lower jwt published s.time phase)
      started events := by
  have hstart : Right lag cfg lower jwt published started := ⟨Or.inl rfl, by simp [started]⟩
  exact Always.mono (fun s h => h.answered)
    (always_of_allSteps (fun s e hs he => hs.step e he) hstart h)

/-- The provider replaces its key while a request is under way. -/
def rotating (t : ℕ) : Jwks ℕ := if t = 0 then [(some "k", 1)] else [(some "k", 2), (none, 3)]

def acme : Config := ⟨"https://idp", "engramia", "engramia_role", "reader", "tenant", ""⟩

def signed : Jwt ℕ where
  header _ := some (some "k", "RS256")
  loads _ _ := true
  verify _ _ key _ _ := if key = 1 then some fun _ => some (some "acme") else none

def oneToken : List (Event ℕ) :=
  [.request "t", .open 0, .check 0, .answer 0 .keys, .tick 5, .store 0, .get 0, .decide 0]

theorem tokens_answered_once :
    (exec (KeyStore.step acme id signed rotating) started oneToken).requests.length = 1 ∧
      ∀ phase ∈ (exec (KeyStore.step acme id signed rotating) started oneToken).requests,
        Answered 5 acme id signed rotating 5 phase := by
  have hlag : AllSteps (KeyStore.step acme id signed rotating) (InTime 5) started oneToken :=
    ⟨trivial, trivial, trivial, trivial, trivial, le_rfl, trivial, trivial, trivial⟩
  exact ⟨rfl, (tokens_answered 5 acme id signed rotating hlag).last⟩

end Runs

end Engramia.Api.Oidc
