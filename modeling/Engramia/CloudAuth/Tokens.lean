import Engramia.Governance.Erasure
import Engramia.Library.Expiry
import Mathlib.Algebra.Order.Ring.Rat
import Mathlib.Data.NNRat.Defs

/-!
The tokens of cloud users and their revocation, in any number of server processes over one
database. Every process keeps its own blocklist, which it fills from `revoked_jtis` when it
starts and from the calls that it serves itself. A JWT is its claims, a jti the number of its
draw; a token that PyJWT does not make out is none. Rate limits and audit records are left
out.

A call of `logout` or `delete_me` blocklists its tokens one after the other: in memory, by an
insert into the table, and by a clean-up of it. Either statement may fail, which is only
logged. What has been blocklisted, where, and how its insert ended is history, and so is the
login that a token goes back to.
-/
namespace Engramia.CloudAuth
open Engramia.Library Engramia.Governance Engramia.Governance.Database

def accessTokenExpireSeconds : Int := 3600
def refreshTokenExpireSeconds : Int := 30 * 86400

inductive TokenType where
  | access
  | refresh
deriving DecidableEq

structure Token where
  sub : String
  tenantId : String
  email : String
  role : String
  type : TokenType
  jti : Nat
  iat : Int
  exp : Int
  session : Nat
deriving DecidableEq

def TokenType.lifetime : TokenType → Int
  | .access => accessTokenExpireSeconds
  | .refresh => refreshTokenExpireSeconds

/-- `_make_token`. -/
def makeToken (now : ℚ) (jti session : Nat) (userId tenantId email role : String)
    (type : TokenType) : Token where
  sub := userId
  tenantId := tenantId
  email := email
  role := role
  type := type
  jti := jti
  iat := now.floor
  exp := now.floor + type.lifetime
  session := session

def tokenExpired : Refusal := ⟨401, "Token has expired."⟩
def malformedToken : Refusal := ⟨401, "Invalid token."⟩
def tokenRevoked : Refusal := ⟨401, "Token has been revoked."⟩
def refreshTokenRequired : Refusal := ⟨401, "Refresh token required."⟩
def accessTokenRequired : Refusal := ⟨401, "Access token required; got refresh token."⟩

/-- `_decode_token` with the blocklist after it. -/
def decodeToken (now : ℚ) (blocklist : OrderedDict Nat ℚ) (token : Option Token)
    (requireRefresh : Bool) : Except Refusal Token × OrderedDict Nat ℚ :=
  match token with
  | none => (.error malformedToken, blocklist)
  | some payload =>
      if (payload.exp : ℚ) ≤ now then (.error tokenExpired, blocklist)
      else
        let (blocked, blocklist) := blocklist.lookUp now payload.jti
        (if blocked then .error tokenRevoked
          else if requireRefresh ∧ payload.type ≠ .refresh then .error refreshTokenRequired
          else if ¬ requireRefresh ∧ payload.type = .refresh then .error accessTokenRequired
          else .ok payload,
        blocklist)

/-- `INSERT INTO revoked_jtis … ON CONFLICT (jti) DO NOTHING`. -/
def insertRevoked (revokedJtis : OrderedDict Nat ℚ) (jti : Nat) (exp : ℚ) :
    OrderedDict Nat ℚ :=
  if (revokedJtis.get? jti).isSome then revokedJtis else revokedJtis.set jti exp

/-- The columns of `cloud_users` that only a login reads. -/
structure LoginColumns where
  provider : String
  emailVerified : Bool

structure CloudEnv where
  lower : String → String
  verifyPassword : String → String → Bool
  columns : String → LoginColumns
  sha256 : String → String
  storage : ScopeStorage

inductive LoginRefusal where
  | invalidCredentials
  | emailNotVerified
deriving DecidableEq

/-- The checks of `login`. -/
def login (env : CloudEnv) (db : Database) (email password : String) :
    Except LoginRefusal CloudUser :=
  match db.cloudUsers.rows.find? fun user =>
      user.email = env.lower email && (env.columns user.id).provider = "credentials" with
  | none => .error .invalidCredentials
  | some user =>
      if user.passwordHash.getD "" = "" ∨
          ¬ env.verifyPassword password (user.passwordHash.getD "") then
        .error .invalidCredentials
      else if ¬ (env.columns user.id).emailVerified then .error .emailNotVerified
      else .ok user

/-- The user that a deletion request is about. -/
def deletionUser (db : Database) (tokenHash : String) : String :=
  match db.deletionRequests.row? tokenHash with
  | none => ""
  | some request => request.userId

/-- A process with its blocklist, and the moment at which it read the table. -/
structure Worker where
  blocklist : OrderedDict Nat ℚ
  readAt : Option Nat

inductive InsertOutcome where
  | pending
  | failed
  | committed (moment : Nat)
deriving DecidableEq

structure Revocation where
  call : Nat
  worker : Nat
  jti : Nat
  insert : InsertOutcome := .pending

inductive CallKind where
  | logout
  | deletion (userId : String)
deriving DecidableEq

inductive CallPhase where
  | revoking (rest : List Token)
  | inserting (revocation : Nat) (token : Token) (now : ℚ) (rest : List Token)
  | cleaning (now : ℚ) (rest : List Token)
deriving DecidableEq

/-- A call once it has come to the tokens that were presented to it. -/
structure Call where
  worker : Nat
  kind : CallKind
  presented : List Token
  phase : CallPhase

def Call.Returned (c : Call) : Prop := c.phase = .revoking []

instance (c : Call) : Decidable c.Returned := inferInstanceAs (Decidable (_ = _))

structure TokenService where
  clock : ℚ
  moment : Nat
  db : Database
  revokedJtis : OrderedDict Nat ℚ
  minted : List Token
  workers : List Worker
  calls : List Call
  revocations : List Revocation

/-- A token is presented by its number, a text that is not a token of the service as none;
the refresh token of a logout and the bearer token of a deletion may be missing. -/
inductive CloudStep where
  | tick (elapsed : NNRat)
  | boot (loaded : Bool)
  | decode (worker : Nat) (token : Option Nat) (requireRefresh : Bool)
  | login (worker : Nat) (email password : String)
  | refresh (worker : Nat) (token : Option Nat)
  | logout (worker : Nat) (token refreshToken : Option Nat)
  | deleteMe (worker : Nat) (now : Int) (ip deletionToken : String) (bearer : Option Nat)
  | advance (call : Nat) (succeeds : Bool)

namespace TokenService

def token? (s : TokenService) (token : Option Nat) : Option Token :=
  token.bind fun jti => s.minted[jti]?

def mint (s : TokenService) (tokens : List Token) : TokenService :=
  { s with minted := s.minted ++ tokens }

def setBlocklist (s : TokenService) (i : Nat) (w : Worker) (blocklist : OrderedDict Nat ℚ) :
    TokenService :=
  { s with workers := s.workers.set i { w with blocklist := blocklist } }

/-- A call that comes to its revocations. -/
def call (s : TokenService) (worker : Nat) (kind : CallKind) (tokens : List (Option Nat)) :
    TokenService :=
  let presented := tokens.filterMap s.token?
  { s with calls := s.calls ++ [⟨worker, kind, presented, .revoking presented⟩] }

def setPhase (s : TokenService) (i : Nat) (c : Call) (phase : CallPhase) : TokenService :=
  { s with calls := s.calls.set i { c with phase := phase } }

/-- `_blocklist_token` up to its statements. -/
def blocklistToken (s : TokenService) (i : Nat) (c : Call) (w : Worker) (token : Token)
    (rest : List Token) : TokenService :=
  let marked := s.setBlocklist c.worker w
    ((w.blocklist.set token.jti token.exp).dropStale s.clock)
  let recorded : TokenService :=
    { marked with revocations := s.revocations ++ [{ call := i, worker := c.worker, jti := token.jti }] }
  recorded.setPhase i c (.inserting s.revocations.length token s.clock rest)

def endInsert (s : TokenService) (r : Nat) (outcome : InsertOutcome) : TokenService :=
  { s with revocations := s.revocations.modify r fun x => { x with insert := outcome } }

def advance (s : TokenService) (i : Nat) (c : Call) (succeeds : Bool) : TokenService :=
  match c.phase with
  | .revoking [] => s
  | .revoking (token :: rest) =>
      match s.workers[c.worker]? with
      | none => s
      | some w => s.blocklistToken i c w token rest
  | .inserting r token now rest =>
      if succeeds then
        let inserted := s.endInsert r (.committed s.moment)
        { inserted with revokedJtis := insertRevoked s.revokedJtis token.jti token.exp }.setPhase i
          c (.cleaning now rest)
      else (s.endInsert r .failed).setPhase i c (.revoking rest)
  | .cleaning now rest =>
      if succeeds then
        { s with revokedJtis := s.revokedJtis.dropStale now }.setPhase i c (.revoking rest)
      else s.setPhase i c (.revoking rest)

/-- What a request does, at a process that exists. -/
def serve (env : CloudEnv) (s : TokenService) (i : Nat) (w : Worker) : CloudStep → TokenService
  | .decode _ token requireRefresh =>
      s.setBlocklist i w (decodeToken s.clock w.blocklist (s.token? token) requireRefresh).2
  | .login _ email password =>
      match CloudAuth.login env s.db email password with
      | .error _ => s
      | .ok user =>
          let make := fun jti =>
            makeToken s.clock jti s.minted.length user.id user.tenantId (env.lower email) "owner"
          s.mint [make s.minted.length .access, make (s.minted.length + 1) .refresh]
  | .refresh _ token =>
      let decoded := decodeToken s.clock w.blocklist (s.token? token) true
      match decoded.1 with
      | .error _ => s.setBlocklist i w decoded.2
      | .ok payload =>
          (s.setBlocklist i w decoded.2).mint
            [makeToken s.clock s.minted.length payload.session payload.sub payload.tenantId
              payload.email payload.role .access]
  | .logout _ token refreshToken => s.call i .logout [token, refreshToken]
  | .deleteMe _ now ip deletionToken bearer =>
      match s.db.deleteMe env.storage now env.sha256 ip deletionToken with
      | .error _ => s
      | .ok deleted =>
          { s with db := deleted.1 }.call i
            (.deletion (deletionUser s.db (env.sha256 deletionToken))) [bearer]
  | _ => s


def dispatch (env : CloudEnv) (s : TokenService) (i : Nat) (a : CloudStep) : TokenService :=
  match s.workers[i]? with
  | none => s
  | some w => s.serve env i w a

/-- What a step changes but the moment. A process starts with the rows that have not expired,
or without if it cannot read them. -/
def act (env : CloudEnv) (s : TokenService) (a : CloudStep) : TokenService :=
  match a with
  | .tick elapsed => { s with clock := s.clock + elapsed }
  | .boot loaded =>
      let worker : Worker :=
        if loaded then ⟨s.revokedJtis.unexpired s.clock, some s.moment⟩ else ⟨.empty, none⟩
      { s with workers := s.workers ++ [worker] }
  | .decode i _ _ | .login i _ _ | .refresh i _ | .logout i _ _ | .deleteMe i _ _ _ _ =>
      s.dispatch env i a
  | .advance i succeeds =>
      match s.calls[i]? with
      | none => s
      | some c => s.advance i c succeeds

def step (env : CloudEnv) (s : TokenService) (a : CloudStep) : TokenService :=
  let next := s.act env a
  { next with moment := next.moment + 1 }

/-- No token, no process: any users. -/
def initial (db : Database) (clock : ℚ) : TokenService :=
  ⟨clock, 0, db, .empty, [], [], [], []⟩

end TokenService

/-- A process takes a token for what it is. -/
def Accepts (now : ℚ) (w : Worker) (token : Token) (requireRefresh : Bool) : Prop :=
  (decodeToken now w.blocklist (some token) requireRefresh).1 = .ok token

instance (now : ℚ) (w : Worker) (token : Token) (requireRefresh : Bool) :
    Decidable (Accepts now w token requireRefresh) :=
  inferInstanceAs (Decidable (_ = _))

theorem accepts_iff {now : ℚ} {w : Worker} {token : Token} {requireRefresh : Bool} :
    Accepts now w token requireRefresh ↔
      now < token.exp ∧ token.type = (if requireRefresh then .refresh else .access) ∧
        (w.blocklist.lookUp now token.jti).1 = false := by
  rw [Accepts, decodeToken]
  by_cases hexp : (token.exp : ℚ) ≤ now
  · simp [hexp, not_lt.mpr hexp]
  · cases hblocked : (w.blocklist.lookUp now token.jti).1 with
    | true => simp [hexp, hblocked]
    | false =>
        cases requireRefresh with
        | true => cases htype : token.type with
          | access => simp [hexp, hblocked]
          | refresh => simp [hexp, hblocked, not_le.mp hexp]
        | false => cases htype : token.type with
          | access => simp [hexp, hblocked, not_le.mp hexp]
          | refresh => simp [hexp, hblocked]

theorem decodeToken_blocklist {P : OrderedDict Nat ℚ → Prop} {now : ℚ}
    {blocklist : OrderedDict Nat ℚ} (hkeep : P blocklist)
    (hlook : ∀ jti, P (blocklist.lookUp now jti).2) (token : Option Token)
    (requireRefresh : Bool) : P (decodeToken now blocklist token requireRefresh).2 := by
  cases token with
  | none => exact hkeep
  | some payload =>
      rw [decodeToken]
      by_cases hexp : (payload.exp : ℚ) ≤ now
      · rw [if_pos hexp]
        exact hkeep
      · rw [if_neg hexp]
        exact hlook payload.jti

end Engramia.CloudAuth
