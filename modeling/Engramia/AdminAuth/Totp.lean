import Engramia.AdminAuth.Sessions

/-!
`AdminAuthService` call by call: the TOTP step, the TOTP re-prompt, the rotation of refresh
tokens and logout. A call that raises has no outcome; it leaves the tables as they were.
The password step, log lines and the last login of an admin are left out. The key that
signs admin tokens is taken to be set.

The clock is read several times in a call. `TotpReadings` keeps the readings apart: of the
lockout check, of the code's verification, of the session that is issued, and of the second
transaction of a re-prompt.
-/
namespace Engramia.AdminAuth
open Engramia.Library

inductive AdminStatus where
  | active
  | locked
  | disabled
deriving DecidableEq

def AdminStatus.text : AdminStatus → String
  | .active => "active"
  | .locked => "locked"
  | .disabled => "disabled"

structure AdminUser where
  id : Nat
  email : String
  totpSecretCiphertext : Option String
  totpEnrolled : Bool
  status : AdminStatus
deriving DecidableEq

inductive AttemptStage where
  | password
  | totp
deriving DecidableEq

structure LoginAttempt where
  email : String
  ipAddress : String
  success : Bool
  stage : AttemptStage
  failureReason : Option String
  attemptedAt : Int
deriving DecidableEq

structure AdminTables where
  users : Table AdminUser.id
  sessions : SessionTable
  attempts : List LoginAttempt

inductive TotpKind where
  | ok
  | invalidToken
  | invalidCode
  | locked
deriving DecidableEq

/-- What an admin token claims. -/
structure AdminClaims where
  adminUserId : Nat
  sessionId : String
  totpIssuedAt : Int
deriving DecidableEq

structure TotpOutcome where
  kind : TotpKind
  adminJwt : Option AdminClaims := none
  refreshToken : Option String := none
  expiresAt : Option Int := none
  totpIssuedAt : Option Int := none
  adminUserId : Option Nat := none
  sessionId : Option String := none
  detail : Option String := none
deriving DecidableEq

/-- What the service takes from libraries: text operations, the vault and the TOTP check at
an instant. -/
structure TotpLibrary where
  lower : String → String
  isspace : Char → Bool
  isdigit : Char → Bool
  decrypt : String → Nat → Option String
  verify : String → String → Int → Bool

structure TotpReadings where
  checked : Int
  verified : Int
  issued : Int
  stamped : Int
  logged : Int
  checked_le : checked ≤ verified
  verified_le : verified ≤ issued
  issued_le : issued ≤ stamped

/-- A call of `attempt_totp`, with the values that the server draws for it. -/
structure TotpCall where
  adminUserId : Nat
  code : String
  ip : String
  userAgent : Option String
  readings : TotpReadings
  newId : String
  newToken : String

structure RefreshCall where
  refreshToken : String
  ip : String
  now : Int
  newId : String
  newToken : String

def lockoutThreshold : Nat := 5

def lockoutWindow : Int := 900000000

/-- `int(datetime.timestamp())`. -/
def unixSeconds (t : Int) : Int := t / 1000000

section Service
variable (lib : TotpLibrary) (hash : String → String)

/-- `code.strip().replace(" ", "")`. -/
def cleanedCode (code : String) : List Char :=
  let stripped := ((code.toList.dropWhile lib.isspace).reverse.dropWhile lib.isspace).reverse
  stripped.filter (· ≠ ' ')

def verifyTotpCode (secret code : String) (now : Int) : Bool :=
  if secret = "" ∨ code = "" then false
  else
    let cleaned := cleanedCode lib code
    if ¬ cleaned.all lib.isdigit ∨ cleaned.length ≠ 6 then false
    else lib.verify secret (String.ofList cleaned) now

def logAttempt (s : AdminTables) (email ip : String) (success : Bool)
    (failureReason : Option String) (attemptedAt : Int) : AdminTables :=
  { s with
    attempts := s.attempts ++
      [{ email := lib.lower email
         ipAddress := ip
         success := success
         stage := .totp
         failureReason := failureReason
         attemptedAt := attemptedAt }] }

def isLockedOut (s : AdminTables) (email : String) (now : Int) : Bool :=
  let recent := s.attempts.filter fun a =>
    a.email = lib.lower email && !a.success && decide (now - lockoutWindow ≤ a.attemptedAt)
  lockoutThreshold ≤ recent.length

/-- The session that a verified code is answered with. -/
def mintedSession (call : TotpCall) : AdminSession where
  id := call.newId
  adminUserId := call.adminUserId
  refreshTokenHash := hash call.newToken
  issuedAt := call.readings.issued
  expiresAt := call.readings.issued + refreshTokenTtl
  totpIssuedAt := call.readings.issued
  userAgent := call.userAgent
  ipAddress := some call.ip
  revokedAt := none

/-- The part of `attempt_totp` from the decrypted secret on. -/
def checkCode (s : AdminTables) (call : TotpCall) (email secret : String) :
    AdminTables × Option TotpOutcome :=
  if ¬ verifyTotpCode lib secret call.code call.readings.verified then
    (logAttempt lib s email call.ip false (some "bad_totp") call.readings.logged,
      some { kind := .invalidCode })
  else
    match s.sessions.insert (mintedSession hash call) with
    | none => (s, none)
    | some sessions =>
        (logAttempt lib { s with sessions := sessions } email call.ip true none
            call.readings.logged,
          some
            { kind := .ok
              adminJwt := some ⟨call.adminUserId, call.newId, unixSeconds call.readings.issued⟩
              refreshToken := some call.newToken
              expiresAt := some (call.readings.issued + refreshTokenTtl)
              totpIssuedAt := some (unixSeconds call.readings.issued)
              adminUserId := some call.adminUserId
              sessionId := some call.newId })

def attemptTotp (s : AdminTables) (call : TotpCall) : AdminTables × Option TotpOutcome :=
  match s.users.row? call.adminUserId with
  | none => (s, some { kind := .invalidToken, detail := some "Unknown admin" })
  | some u =>
      if u.status ≠ .active then
        (s, some { kind := .locked, detail := some ("Account status: " ++ u.status.text) })
      else if isLockedOut lib s u.email call.readings.checked then
        (logAttempt lib s u.email call.ip false (some "locked") call.readings.logged,
          some { kind := .locked })
      else if ¬ u.totpEnrolled ∨ u.totpSecretCiphertext.getD "" = "" then
        (logAttempt lib s u.email call.ip false (some "totp_not_enrolled") call.readings.logged,
          some { kind := .invalidToken, detail := some "TOTP not enrolled" })
      else
        match lib.decrypt (u.totpSecretCiphertext.getD "") call.adminUserId with
        | none => (s, none)
        | some secret => checkCode lib hash s call u.email secret

/-- `UPDATE admin_sessions SET totp_issued_at = :ts WHERE id = :sid AND revoked_at IS NULL`. -/
def advanceAnchor (t : SessionTable) (sessionId : String) (ts : Int) : SessionTable :=
  t.update (fun r => r.id = sessionId && r.revokedAt.isNone)
    (fun r => { r with totpIssuedAt := ts }) fun _ => rfl

/-- The session that `attempt_totp` has inserted is deleted again. -/
def reauthTotp (s : AdminTables) (call : TotpCall) (sessionId : String) :
    AdminTables × Option TotpOutcome :=
  match attemptTotp lib hash s { call with userAgent := none } with
  | (s', none) => (s', none)
  | (s', some outcome) =>
      if outcome.kind ≠ .ok then (s', some outcome)
      else
        ({ s' with
            sessions := advanceAnchor
              (s'.sessions.delete fun r => some r.id = outcome.sessionId) sessionId
              call.readings.stamped },
          some
            { kind := .ok
              totpIssuedAt := outcome.totpIssuedAt
              adminUserId := some call.adminUserId
              sessionId := some sessionId })

def unknownRefreshToken : TotpOutcome :=
  { kind := .invalidToken, detail := some "Unknown refresh token" }

def refreshReplay : TotpOutcome :=
  { kind := .invalidToken, detail := some "Refresh token replay" }

def refreshExpired : TotpOutcome :=
  { kind := .invalidToken, detail := some "Refresh token expired" }

def refresh (s : AdminTables) (call : RefreshCall) : AdminTables × Option TotpOutcome :=
  match sessionByHash s.sessions (hash call.refreshToken) with
  | none => (s, some unknownRefreshToken)
  | some r =>
      if r.revokedAt.isSome then
        ({ s with sessions := revokeAll s.sessions r.adminUserId call.now }, some refreshReplay)
      else if r.expiresAt < call.now then (s, some refreshExpired)
      else
        match (revokeOld s.sessions r.id call.now).insert
            (r.successor call.newId (hash call.newToken) call.now call.ip) with
        | none => (s, none)
        | some sessions =>
            ({ s with sessions := sessions },
              some
                { kind := .ok
                  adminJwt := some ⟨r.adminUserId, call.newId, unixSeconds r.totpIssuedAt⟩
                  refreshToken := some call.newToken
                  expiresAt := some (call.now + refreshTokenTtl)
                  totpIssuedAt := some (unixSeconds r.totpIssuedAt)
                  adminUserId := some r.adminUserId
                  sessionId := some call.newId })

def logout (s : AdminTables) (sessionId : String) (now : Int) : AdminTables :=
  { s with
    sessions := revokeWhere s.sessions (fun r => r.id = sessionId && r.revokedAt.isNone) now }

/-- `session_freshness`: what `require_super_admin` asks for. -/
def sessionFreshness (s : AdminTables) (sessionId : String) (now : Int) : Option Int :=
  (s.sessions.rows.find? fun r => r.id = sessionId && r.live now).map AdminSession.totpIssuedAt

/-- The gate of `require_fresh_totp`, behind `require_super_admin`: whether the session is
live, and its anchor no older than the window allows. -/
def requireFreshTotp (s : AdminTables) (sessionId : String) (windowSeconds dbNow now : Int) :
    Bool :=
  (sessionFreshness s sessionId dbNow).any fun anchor =>
    unixSeconds now - unixSeconds anchor ≤ windowSeconds

/-- Whether a call was answered with success. -/
def succeeded (answer : Option TotpOutcome) : Bool :=
  answer.any fun outcome => outcome.kind = .ok

variable (s : AdminTables)

theorem checkCode_cases (call : TotpCall) (email secret : String) :
    (checkCode lib hash s call email secret).1.sessions = s.sessions ∧
        succeeded (checkCode lib hash s call email secret).2 = false ∨
      s.sessions.insert (mintedSession hash call) =
          some (checkCode lib hash s call email secret).1.sessions ∧
        ∃ outcome, (checkCode lib hash s call email secret).2 = some outcome ∧
          outcome.kind = .ok ∧ outcome.sessionId = some call.newId := by
  rw [checkCode]
  by_cases hcode : verifyTotpCode lib secret call.code call.readings.verified = true
  · rw [if_neg (not_not_intro hcode)]
    cases hinsert : s.sessions.insert (mintedSession hash call) with
    | none => exact .inl ⟨rfl, rfl⟩
    | some sessions => exact .inr ⟨rfl, _, rfl, rfl, rfl⟩
  · rw [if_pos hcode]
    exact .inl ⟨rfl, rfl⟩

theorem attemptTotp_cases (call : TotpCall) :
    (attemptTotp lib hash s call).1.sessions = s.sessions ∧
        succeeded (attemptTotp lib hash s call).2 = false ∨
      s.sessions.insert (mintedSession hash call) =
          some (attemptTotp lib hash s call).1.sessions ∧
        ∃ outcome, (attemptTotp lib hash s call).2 = some outcome ∧
          outcome.kind = .ok ∧ outcome.sessionId = some call.newId := by
  rw [attemptTotp]
  cases s.users.row? call.adminUserId with
  | none => exact .inl ⟨rfl, rfl⟩
  | some u =>
      dsimp only
      by_cases hstatus : u.status ≠ .active
      · rw [if_pos hstatus]
        exact .inl ⟨rfl, rfl⟩
      · rw [if_neg hstatus]
        by_cases hlocked : isLockedOut lib s u.email call.readings.checked = true
        · rw [if_pos hlocked]
          exact .inl ⟨rfl, rfl⟩
        · rw [if_neg hlocked]
          by_cases henrolled : ¬ u.totpEnrolled = true ∨ u.totpSecretCiphertext.getD "" = ""
          · rw [if_pos henrolled]
            exact .inl ⟨rfl, rfl⟩
          · rw [if_neg henrolled]
            cases lib.decrypt (u.totpSecretCiphertext.getD "") call.adminUserId with
            | none => exact .inl ⟨rfl, rfl⟩
            | some secret => exact checkCode_cases lib hash s call u.email secret

/-- A re-prompt sets the anchor of the session it names, and does nothing else to the
sessions. -/
theorem reauthTotp_cases (call : TotpCall) (sessionId : String) :
    (reauthTotp lib hash s call sessionId).1.sessions = s.sessions ∧
        succeeded (reauthTotp lib hash s call sessionId).2 = false ∨
      (reauthTotp lib hash s call sessionId).1.sessions =
          advanceAnchor s.sessions sessionId call.readings.stamped ∧
        succeeded (reauthTotp lib hash s call sessionId).2 = true := by
  have hcases := attemptTotp_cases lib hash s { call with userAgent := none }
  rw [reauthTotp]
  cases hattempt : attemptTotp lib hash s { call with userAgent := none } with
  | mk s' answer =>
      rw [hattempt] at hcases
      cases hcases with
      | inl hfailed =>
          cases answer with
          | none => exact .inl hfailed
          | some outcome =>
              have hkind : outcome.kind ≠ .ok := of_decide_eq_false hfailed.2
              dsimp only
              rw [if_pos hkind]
              exact .inl hfailed
      | inr hok =>
          obtain ⟨hinsert, outcome, hanswer, hkind, hid⟩ := hok
          cases hanswer
          dsimp only at hinsert ⊢
          rw [if_neg (not_not_intro hkind), hid]
          refine .inr ⟨?_, rfl⟩
          apply congrArg (advanceAnchor · sessionId call.readings.stamped)
          apply Table.delete_insert hinsert
          intro r
          rw [decide_eq_true_iff, Option.some.injEq]
          rfl

/-- A refresh finds nothing to rotate, revokes every session of the admin, or replaces the
session of its token. -/
theorem refresh_cases (call : RefreshCall) :
    ((refresh hash s call).1.sessions = s.sessions ∧ succeeded (refresh hash s call).2 = false ∧
        ∀ r, sessionByHash s.sessions (hash call.refreshToken) = some r → r.revokedAt = none) ∨
      (∃ r, sessionByHash s.sessions (hash call.refreshToken) = some r ∧
        (refresh hash s call).1.sessions = revokeAll s.sessions r.adminUserId call.now ∧
        succeeded (refresh hash s call).2 = false) ∨
      ∃ r, sessionByHash s.sessions (hash call.refreshToken) = some r ∧ r.revokedAt = none ∧
        (revokeOld s.sessions r.id call.now).insert
            (r.successor call.newId (hash call.newToken) call.now call.ip) =
          some (refresh hash s call).1.sessions ∧
        succeeded (refresh hash s call).2 = true := by
  rw [refresh]
  cases hfind : sessionByHash s.sessions (hash call.refreshToken) with
  | none => exact .inl ⟨rfl, rfl, fun r hr => by cases hr⟩
  | some r =>
      dsimp only
      by_cases hrevoked : r.revokedAt.isSome = true
      · rw [if_pos hrevoked]
        exact .inr (.inl ⟨r, rfl, rfl, rfl⟩)
      · have hnone : r.revokedAt = none := by simpa using hrevoked
        have hkept : ∀ x, some r = some x → x.revokedAt = none := by
          intro x hx
          cases hx
          exact hnone
        rw [if_neg hrevoked]
        by_cases hexpired : r.expiresAt < call.now
        · rw [if_pos hexpired]
          exact .inl ⟨rfl, rfl, hkept⟩
        · rw [if_neg hexpired]
          cases hinsert : (revokeOld s.sessions r.id call.now).insert
              (r.successor call.newId (hash call.newToken) call.now call.ip) with
          | none => exact .inl ⟨rfl, rfl, hkept⟩
          | some sessions => exact .inr (.inr ⟨r, rfl, hnone, hinsert, rfl⟩)

end Service

end Engramia.AdminAuth
