import Engramia.AdminAuth.Totp
import Engramia.Library.Run
import Engramia.Library.Tally

/-!
Concurrent calls of `attempt_login` and `attempt_totp`. A call computes the cutoff of its
lockout check, counts the failures that are committed, reads what it verifies against,
verifies, and writes its attempt: the row carries the time its transaction began and is seen
by others once it commits. The admins may be changed at any time.

A call keeps its own history: what its check has counted and when, when its guess was found
wrong, and when its attempt was committed, in moments of the run.
-/
namespace Engramia.AdminAuth
open Engramia.Library

structure AdminCredentials extends AdminUser where
  passwordHash : String

inductive GuessRequest where
  | login (email password ip : String)
  | totp (adminUserId : Nat) (code ip : String)

inductive GuessPhase where
  | arrived
  | identified
  | counting (cutoff : Int)
  | passed
  | checking
  | logging (success : Bool) (failureReason : Option String)
  | inserting (entry : LoginAttempt)
  | done
deriving DecidableEq

structure GuessCall where
  request : GuessRequest
  email : String := ""
  row : Option AdminCredentials := none
  phase : GuessPhase := .arrived
  cutoff : Int := 0
  counted : Nat := 0
  countedAt : Nat := 0
  wrongAt : Option Int := none
  loggedAt : Option Nat := none

structure GuessRace where
  admins : List AdminCredentials
  attempts : List LoginAttempt
  calls : List GuessCall
  clock : Int
  moment : Nat

inductive GuessStep where
  | tick (elapsed : Nat)
  | setAdmins (admins : List AdminCredentials)
  | begin (request : GuessRequest)
  | advance (call : Nat)

section Race
variable (lib : TotpLibrary) (verifyPassword : String → String → Bool)

/-- `s.strip()`. -/
def stripText (s : String) : String :=
  String.ofList ((s.toList.dropWhile lib.isspace).reverse.dropWhile lib.isspace).reverse

def GuessRequest.ip : GuessRequest → String
  | .login _ _ ip => ip
  | .totp _ _ ip => ip

def GuessRequest.stage : GuessRequest → AttemptStage
  | .login _ _ _ => .password
  | .totp _ _ _ => .totp

/-- The email under which the attempts of a call are counted and logged. -/
def GuessCall.account (c : GuessCall) : String := lib.lower c.email

/-- `SELECT COUNT(*) FROM admin_login_attempts WHERE …`. -/
def failuresSince (attempts : List LoginAttempt) (email : String) (cutoff : Int) : Nat :=
  attempts.countP fun a => a.email = email && !a.success && decide (cutoff ≤ a.attemptedAt)

/-- What a call knows of its admin before the lockout check: a login has only the email, a
TOTP step reads the row, and ends if the admin is unknown or not active. -/
def identified (s : GuessRace) : GuessRequest → Option (String × Option AdminCredentials)
  | .login email _ _ => some (lib.lower (stripText lib email), none)
  | .totp adminUserId _ _ =>
      match s.admins.find? fun row => row.id = adminUserId with
      | none => none
      | some row => if row.status ≠ .active then none else some (row.email, some row)

def identify (s : GuessRace) (c : GuessCall) : GuessCall :=
  match identified lib s c.request with
  | none => { c with phase := .done }
  | some known =>
      { c with
        email := known.1
        row := known.2
        phase := .identified }

/-- `_is_locked_out`, from its count on. -/
def countFailures (s : GuessRace) (c : GuessCall) (cutoff : Int) : GuessCall :=
  let failures := failuresSince s.attempts (c.account lib) cutoff
  { c with
    cutoff := cutoff
    counted := failures
    countedAt := s.moment
    phase :=
      if lockoutThreshold ≤ failures then .logging false (some "locked") else .passed }

/-- Between the lockout check and the verification: a login reads the row and looks at its
status, a TOTP step looks at the enrolment. -/
def prepared (s : GuessRace) (c : GuessCall) : Option AdminCredentials × GuessPhase :=
  match c.request with
  | .login _ _ _ =>
      match s.admins.find? fun row => row.email = c.email with
      | none => (none, .logging false (some "unknown_email"))
      | some row =>
          if row.status ≠ .active then
            (none, .logging false (some ("status_" ++ row.status.text)))
          else (some row, .checking)
  | .totp _ _ _ =>
      match c.row with
      | none => (none, .done)
      | some row =>
          if ¬ row.totpEnrolled ∨ row.totpSecretCiphertext.getD "" = "" then
            (some row, .logging false (some "totp_not_enrolled"))
          else (some row, .checking)

def prepare (s : GuessRace) (c : GuessCall) : GuessCall :=
  { c with
    row := (prepared s c).1
    phase := (prepared s c).2 }

/-- What the verification says of a guess, `none` if the secret cannot be decrypted. -/
def guessRight (clock : Int) (row : AdminCredentials) : GuessRequest → Option Bool
  | .login _ password _ => some (verifyPassword password row.passwordHash)
  | .totp _ code _ =>
      (lib.decrypt (row.totpSecretCiphertext.getD "") row.id).map fun secret =>
        verifyTotpCode lib secret code clock

def wrongReason : GuessRequest → String
  | .login _ _ _ => "bad_password"
  | .totp _ _ _ => "bad_totp"

/-- The verdict on the guess of a call that is about to verify it. -/
def verdict (s : GuessRace) (c : GuessCall) : Option Bool :=
  c.row.bind fun row => guessRight lib verifyPassword s.clock row c.request

/-- A right password still fails if TOTP was never enrolled. -/
def afterRight (c : GuessCall) : GuessPhase :=
  match c.request with
  | .login _ _ _ =>
      if c.row.any fun row => row.totpEnrolled then .logging true none
      else .logging false (some "totp_not_enrolled")
  | .totp _ _ _ => .logging true none

def check (s : GuessRace) (c : GuessCall) : GuessCall :=
  match verdict lib verifyPassword s c with
  | none => { c with phase := .done }
  | some true => { c with phase := afterRight c }
  | some false =>
      { c with
        wrongAt := some s.clock
        phase := .logging false (some (wrongReason c.request)) }

/-- The row that `_log_attempt` inserts. -/
def attemptRow (c : GuessCall) (success : Bool) (failureReason : Option String)
    (attemptedAt : Int) : LoginAttempt where
  email := c.account lib
  ipAddress := c.request.ip
  success := success
  stage := c.request.stage
  failureReason := failureReason
  attemptedAt := attemptedAt

def advance (s : GuessRace) (c : GuessCall) : GuessCall :=
  match c.phase with
  | .arrived => identify lib s c
  | .identified => { c with phase := .counting (s.clock - lockoutWindow) }
  | .counting cutoff => countFailures lib s c cutoff
  | .passed => prepare s c
  | .checking => check lib verifyPassword s c
  | .logging success reason =>
      { c with phase := .inserting (attemptRow lib c success reason s.clock) }
  | .inserting _ =>
      { c with
        phase := .done
        loggedAt := some s.moment }
  | .done => c

/-- What the next step of a call commits. -/
def GuessPhase.entry : GuessPhase → List LoginAttempt
  | .inserting entry => [entry]
  | _ => []

def guessStep (s : GuessRace) : GuessStep → GuessRace
  | .tick elapsed =>
      { s with
        clock := s.clock + elapsed
        moment := s.moment + 1 }
  | .setAdmins admins =>
      { s with
        admins := admins
        moment := s.moment + 1 }
  | .begin request =>
      { s with
        calls := s.calls ++ [{ request := request }]
        moment := s.moment + 1 }
  | .advance i =>
      match s.calls[i]? with
      | none => s
      | some c =>
          { s with
            attempts := s.attempts ++ c.phase.entry
            calls := s.calls.set i (advance lib verifyPassword s c)
            moment := s.moment + 1 }

/-- Any admins and attempts, no call. -/
def noGuesses (admins : List AdminCredentials) (attempts : List LoginAttempt) (clock : Int) :
    GuessRace :=
  ⟨admins, attempts, [], clock, 0⟩

/-- The guess was found wrong at the cutoff or later. -/
def GuessCall.wrongSince (c : GuessCall) (cutoff : Int) : Bool :=
  c.wrongAt.any fun t => cutoff ≤ t

def GuessCall.wrongIn (c : GuessCall) (start : Int) : Bool :=
  c.wrongAt.any fun t => start ≤ t && decide (t ≤ start + lockoutWindow)

/-- In any fifteen minutes at most five wrong guesses are verified for an account. -/
def BoundedGuesses (s : GuessRace) : Prop :=
  ∀ account start,
    (s.calls.countP fun c => c.account lib = account && c.wrongIn start) ≤ lockoutThreshold

def GuessCall.loggedBefore (c : GuessCall) (moment : Nat) : Bool :=
  c.loggedAt.any (· < moment)

/-- The wrong guesses for the account of a call, verified within the last fifteen minutes,
whose attempt was not committed when the call counted. -/
def unseenGuesses (s : GuessRace) (c : GuessCall) : Nat :=
  s.calls.countP fun d =>
    (d.account lib = c.account lib && d.wrongSince (s.clock - lockoutWindow)) &&
      !d.loggedBefore c.countedAt

/-- A wrong guess is verified only if the check would have let it through had it seen the
wrong guesses of the others. -/
def ChecksInTime (s : GuessRace) : GuessStep → Prop
  | .advance i => ∀ c ∈ s.calls[i]?, c.phase = .checking →
      verdict lib verifyPassword s c = some false →
      c.counted + unseenGuesses lib s c < lockoutThreshold
  | _ => True

instance decidableChecksInTime (s : GuessRace) :
    (a : GuessStep) → Decidable (ChecksInTime lib verifyPassword s a)
  | .advance i => inferInstanceAs (Decidable (∀ c ∈ s.calls[i]?, c.phase = .checking →
      verdict lib verifyPassword s c = some false →
      c.counted + unseenGuesses lib s c < lockoutThreshold))
  | .tick _ => isTrue trivial
  | .setAdmins _ => isTrue trivial
  | .begin _ => isTrue trivial

end Race

/-- A phase before the verdict on the guess. -/
def GuessPhase.guessing : GuessPhase → Bool
  | .logging _ _ => false
  | .inserting _ => false
  | .done => false
  | _ => true

section Calls
variable (lib : TotpLibrary)

/-- What a call knows at a clock reading and a moment. -/
structure CallInv (clock : Int) (moment : Nat) (c : GuessCall) : Prop where
  unguessed : c.phase.guessing = true → c.wrongAt = none
  unlogged : c.phase ≠ .done → c.loggedAt = none
  wrong_le : ∀ t ∈ c.wrongAt, t ≤ clock
  logged_lt : ∀ m ∈ c.loggedAt, m < moment
  counted_le : c.countedAt ≤ moment
  cutoff_le : c.phase = .passed ∨ c.phase = .checking → c.cutoff ≤ clock - lockoutWindow
  counting_le : ∀ cutoff, c.phase = .counting cutoff → cutoff ≤ clock - lockoutWindow
  logging : ∀ t ∈ c.wrongAt, ∀ success reason, c.phase = .logging success reason → success = false
  inserting : ∀ t ∈ c.wrongAt, ∀ entry, c.phase = .inserting entry →
    entry.email = c.account lib ∧ entry.success = false ∧ t ≤ entry.attemptedAt

variable {lib} {clock clock' : Int} {moment moment' : Nat} {c c' : GuessCall}

theorem CallInv.later (h : CallInv lib clock moment c) (hclock : clock ≤ clock')
    (hmoment : moment ≤ moment') : CallInv lib clock' moment' c where
  unguessed := h.unguessed
  unlogged := h.unlogged
  wrong_le t ht := Int.le_trans (h.wrong_le t ht) hclock
  logged_lt m hm := Nat.lt_of_lt_of_le (h.logged_lt m hm) hmoment
  counted_le := Nat.le_trans h.counted_le hmoment
  cutoff_le hphase := by
    have hle := h.cutoff_le hphase
    omega
  counting_le cutoff hphase := by
    have hle := h.counting_le cutoff hphase
    omega
  logging := h.logging
  inserting := h.inserting

theorem CallInv.of_none (hwrong : c.wrongAt = none) (hlogged : c.loggedAt = none)
    (hcounted : c.countedAt ≤ moment)
    (hcutoff : c.phase = .passed ∨ c.phase = .checking → c.cutoff ≤ clock - lockoutWindow)
    (hcounting : ∀ cutoff, c.phase = .counting cutoff → cutoff ≤ clock - lockoutWindow) :
    CallInv lib clock moment c where
  unguessed _ := hwrong
  unlogged _ := hlogged
  wrong_le t ht := by
    rw [hwrong] at ht
    cases ht
  logged_lt m hm := by
    rw [hlogged] at hm
    cases hm
  counted_le := hcounted
  cutoff_le := hcutoff
  counting_le := hcounting
  logging t ht := by
    rw [hwrong] at ht
    cases ht
  inserting t ht := by
    rw [hwrong] at ht
    cases ht

theorem identify_cases (lib : TotpLibrary) (s : GuessRace) (c : GuessCall) :
    (identify lib s c).wrongAt = c.wrongAt ∧ (identify lib s c).loggedAt = c.loggedAt ∧
      (identify lib s c).countedAt = c.countedAt ∧
      ((identify lib s c).phase = .done ∨ (identify lib s c).phase = .identified) := by
  rw [identify]
  cases identified lib s c.request with
  | none => exact ⟨rfl, rfl, rfl, .inl rfl⟩
  | some known => exact ⟨rfl, rfl, rfl, .inr rfl⟩

theorem prepared_cases (s : GuessRace) (c : GuessCall) :
    (prepared s c).2 = .done ∨ (∃ reason, (prepared s c).2 = .logging false reason) ∨
      (prepared s c).2 = .checking := by
  rw [prepared]
  cases c.request with
  | login email password ip =>
      dsimp only
      cases s.admins.find? fun row => row.email = c.email with
      | none => exact .inr (.inl ⟨_, rfl⟩)
      | some row =>
          dsimp only
          by_cases hstatus : row.status ≠ .active
          · rw [if_pos hstatus]
            exact .inr (.inl ⟨_, rfl⟩)
          · rw [if_neg hstatus]
            exact .inr (.inr rfl)
  | totp adminUserId code ip =>
      dsimp only
      cases c.row with
      | none => exact .inl rfl
      | some row =>
          dsimp only
          by_cases henrolled : ¬ row.totpEnrolled = true ∨ row.totpSecretCiphertext.getD "" = ""
          · rw [if_pos henrolled]
            exact .inr (.inl ⟨_, rfl⟩)
          · rw [if_neg henrolled]
            exact .inr (.inr rfl)

theorem afterRight_cases (c : GuessCall) :
    ∃ success reason, afterRight c = .logging success reason := by
  rw [afterRight]
  cases c.request with
  | login email password ip =>
      dsimp only
      by_cases henrolled : (c.row.any fun row => row.totpEnrolled) = true
      · exact ⟨_, _, if_pos henrolled⟩
      · exact ⟨_, _, if_neg henrolled⟩
  | totp adminUserId code ip => exact ⟨_, _, rfl⟩

variable (verifyPassword : String → String → Bool)

theorem CallInv.fresh (h : CallInv lib clock moment c) (hguessing : c.phase.guessing = true) :
    c.wrongAt = none ∧ c.loggedAt = none := by
  constructor
  · exact h.unguessed hguessing
  · apply h.unlogged
    intro hdone
    rw [hdone] at hguessing
    cases hguessing

theorem CallInv.identify (s : GuessRace) (h : CallInv lib clock moment c)
    (hphase : c.phase = .arrived) :
    CallInv lib clock moment (Engramia.AdminAuth.identify lib s c) := by
  obtain ⟨hnone, hfree⟩ := h.fresh (by rw [hphase]; rfl)
  obtain ⟨hwrong, hlogged, hcounted, hnext⟩ := identify_cases lib s c
  apply CallInv.of_none (hwrong.trans hnone) (hlogged.trans hfree)
  · rw [hcounted]
    exact h.counted_le
  · intro hpassed
    cases hnext with
    | inl hdone => simp [hdone] at hpassed
    | inr hidentified => simp [hidentified] at hpassed
  · intro cutoff hcounting
    cases hnext with
    | inl hdone => simp [hdone] at hcounting
    | inr hidentified => simp [hidentified] at hcounting

theorem CallInv.countFailures {s : GuessRace} (h : CallInv lib clock s.moment c) {cutoff : Int}
    (hphase : c.phase = .counting cutoff) :
    CallInv lib clock s.moment (Engramia.AdminAuth.countFailures lib s c cutoff) := by
  obtain ⟨hnone, hfree⟩ := h.fresh (by rw [hphase]; rfl)
  apply CallInv.of_none
  · exact hnone
  · exact hfree
  · exact Nat.le_refl s.moment
  · intro _
    exact h.counting_le cutoff hphase
  · intro cutoff' hcounting
    dsimp only [Engramia.AdminAuth.countFailures] at hcounting
    by_cases hlocked : lockoutThreshold ≤ failuresSince s.attempts (c.account lib) cutoff
    · rw [if_pos hlocked] at hcounting
      cases hcounting
    · rw [if_neg hlocked] at hcounting
      cases hcounting

theorem CallInv.prepare (s : GuessRace) (h : CallInv lib clock moment c)
    (hphase : c.phase = .passed) :
    CallInv lib clock moment (Engramia.AdminAuth.prepare s c) := by
  obtain ⟨hnone, hfree⟩ := h.fresh (by rw [hphase]; rfl)
  apply CallInv.of_none
  · exact hnone
  · exact hfree
  · exact h.counted_le
  · intro _
    exact h.cutoff_le (.inl hphase)
  · intro cutoff hcounting
    change (prepared s c).2 = .counting cutoff at hcounting
    cases prepared_cases s c with
    | inl hdone => simp [hdone] at hcounting
    | inr hnext =>
        cases hnext with
        | inl hlogging =>
            obtain ⟨reason, hlogging⟩ := hlogging
            simp [hlogging] at hcounting
        | inr hchecking => simp [hchecking] at hcounting

theorem CallInv.check {s : GuessRace} (h : CallInv lib s.clock moment c)
    (hphase : c.phase = .checking) :
    CallInv lib s.clock moment (Engramia.AdminAuth.check lib verifyPassword s c) := by
  obtain ⟨hnone, hfree⟩ := h.fresh (by rw [hphase]; rfl)
  rw [Engramia.AdminAuth.check]
  cases verdict lib verifyPassword s c with
  | none =>
      apply CallInv.of_none
      · exact hnone
      · exact hfree
      · exact h.counted_le
      · intro hpassed
        simp at hpassed
      · intro cutoff hcounting
        cases hcounting
  | some right =>
      cases right with
      | true =>
          obtain ⟨success, reason, hlogging⟩ := afterRight_cases c
          apply CallInv.of_none
          · exact hnone
          · exact hfree
          · exact h.counted_le
          · intro hpassed
            simp [hlogging] at hpassed
          · intro cutoff hcounting
            simp [hlogging] at hcounting
      | false =>
          refine ⟨?_, fun _ => hfree, ?_, h.logged_lt, h.counted_le, ?_, ?_, ?_, ?_⟩
          · intro hguessing
            cases hguessing
          · intro t ht
            cases ht
            exact Int.le_refl _
          · intro hpassed
            simp at hpassed
          · intro cutoff hcounting
            cases hcounting
          · intro t _ success reason hlogging
            cases hlogging
            rfl
          · intro t _ entry hinserting
            cases hinserting

theorem CallInv.advance {s : GuessRace} (h : CallInv lib s.clock s.moment c) :
    CallInv lib s.clock (s.moment + 1) (Engramia.AdminAuth.advance lib verifyPassword s c) := by
  have hlater : CallInv lib s.clock (s.moment + 1) c := h.later (Int.le_refl _) (Nat.le_succ _)
  rw [Engramia.AdminAuth.advance]
  cases hphase : c.phase with
  | arrived => exact hlater.identify s hphase
  | identified =>
      obtain ⟨hnone, hfree⟩ := h.fresh (by rw [hphase]; rfl)
      apply CallInv.of_none
      · exact hnone
      · exact hfree
      · exact hlater.counted_le
      · intro hpassed
        simp at hpassed
      · intro cutoff hcounting
        exact Int.le_of_eq (GuessPhase.counting.inj hcounting).symm
  | counting cutoff => exact (h.countFailures hphase).later (Int.le_refl _) (Nat.le_succ _)
  | passed => exact hlater.prepare s hphase
  | checking => exact hlater.check verifyPassword hphase
  | logging success reason =>
      have hfree : c.loggedAt = none := h.unlogged (by simp [hphase])
      refine ⟨?_, fun _ => hfree, hlater.wrong_le, hlater.logged_lt, hlater.counted_le, ?_, ?_, ?_,
        ?_⟩
      · intro hguessing
        cases hguessing
      · intro hpassed
        simp at hpassed
      · intro cutoff hcounting
        cases hcounting
      · intro t _ success' reason' hlogging
        cases hlogging
      · intro t ht entry hinserting
        cases hinserting
        exact ⟨rfl, h.logging t ht success reason hphase, h.wrong_le t ht⟩
  | inserting entry =>
      refine ⟨?_, ?_, hlater.wrong_le, ?_, hlater.counted_le, ?_, ?_, ?_, ?_⟩
      · intro hguessing
        cases hguessing
      · intro hdone
        exact absurd rfl hdone
      · intro m hm
        cases hm
        exact Nat.lt_succ_self _
      · intro hpassed
        simp at hpassed
      · intro cutoff hcounting
        cases hcounting
      · intro t _ success reason hlogging
        cases hlogging
      · intro t _ entry' hinserting
        cases hinserting
  | done => exact hlater

theorem advance_wrongAt (s : GuessRace) (h : CallInv lib clock moment c) :
    (c.phase = .checking ∧ verdict lib verifyPassword s c = some false ∧
      (Engramia.AdminAuth.advance lib verifyPassword s c).wrongAt = some s.clock ∧
      (Engramia.AdminAuth.advance lib verifyPassword s c).account lib = c.account lib) ∨
    (Engramia.AdminAuth.advance lib verifyPassword s c).wrongAt = c.wrongAt ∧
      (c.wrongAt = none ∨
        (Engramia.AdminAuth.advance lib verifyPassword s c).account lib = c.account lib) := by
  rw [Engramia.AdminAuth.advance]
  cases hphase : c.phase with
  | arrived =>
      exact .inr ⟨(identify_cases lib s c).1, .inl (h.unguessed (by rw [hphase]; rfl))⟩
  | checking =>
      dsimp only
      rw [check]
      cases hverdict : verdict lib verifyPassword s c with
      | none => exact .inr ⟨rfl, .inr rfl⟩
      | some right =>
          cases right with
          | true => exact .inr ⟨rfl, .inr rfl⟩
          | false => exact .inl ⟨rfl, rfl, rfl, rfl⟩
  | _ => exact .inr ⟨rfl, .inr rfl⟩

theorem advance_loggedAt (s : GuessRace) (h : CallInv lib clock moment c) :
    (∃ entry, c.phase = .inserting entry ∧ c.loggedAt = none ∧
      Engramia.AdminAuth.advance lib verifyPassword s c =
        { c with
          phase := .done
          loggedAt := some s.moment }) ∨
    c.phase.entry = [] ∧
      (Engramia.AdminAuth.advance lib verifyPassword s c = c ∨
        c.loggedAt = none ∧
          (Engramia.AdminAuth.advance lib verifyPassword s c).loggedAt = none) := by
  have hnone : c.phase ≠ .done → c.loggedAt = none := h.unlogged
  rw [Engramia.AdminAuth.advance]
  cases hphase : c.phase with
  | arrived =>
      have hfree := hnone (by simp [hphase])
      exact .inr ⟨rfl, .inr ⟨hfree, (identify_cases lib s c).2.1.trans hfree⟩⟩
  | checking =>
      have hfree := hnone (by simp [hphase])
      refine .inr ⟨rfl, .inr ⟨hfree, ?_⟩⟩
      dsimp only
      rw [check]
      cases verdict lib verifyPassword s c with
      | none => exact hfree
      | some right =>
          cases right with
          | true => exact hfree
          | false => exact hfree
  | inserting entry => exact .inl ⟨entry, rfl, hnone (by simp [hphase]), rfl⟩
  | done => exact .inr ⟨rfl, .inl rfl⟩
  | _ =>
      have hfree := hnone (by simp [hphase])
      exact .inr ⟨rfl, .inr ⟨hfree, hfree⟩⟩

theorem advance_counted (s : GuessRace)
    (hphase : (Engramia.AdminAuth.advance lib verifyPassword s c).phase = .passed ∨
      (Engramia.AdminAuth.advance lib verifyPassword s c).phase = .checking) :
    (∃ cutoff, c.phase = .counting cutoff ∧
      Engramia.AdminAuth.advance lib verifyPassword s c = countFailures lib s c cutoff) ∨
    c.phase = .passed ∧ Engramia.AdminAuth.advance lib verifyPassword s c = prepare s c := by
  rw [Engramia.AdminAuth.advance] at hphase ⊢
  cases hold : c.phase with
  | arrived =>
      rw [hold] at hphase
      cases (identify_cases lib s c).2.2.2 with
      | inl hdone => simp [hdone] at hphase
      | inr hidentified => simp [hidentified] at hphase
  | identified =>
      rw [hold] at hphase
      simp at hphase
  | counting cutoff => exact .inl ⟨cutoff, rfl, rfl⟩
  | passed => exact .inr ⟨rfl, rfl⟩
  | checking =>
      rw [hold] at hphase
      dsimp only at hphase
      rw [check] at hphase
      cases hverdict : verdict lib verifyPassword s c with
      | none =>
          rw [hverdict] at hphase
          simp at hphase
      | some right =>
          rw [hverdict] at hphase
          cases right with
          | true =>
              obtain ⟨success, reason, hlogging⟩ := afterRight_cases c
              simp [hlogging] at hphase
          | false => simp at hphase
  | logging success reason =>
      rw [hold] at hphase
      simp at hphase
  | inserting entry =>
      rw [hold] at hphase
      simp at hphase
  | done =>
      rw [hold] at hphase
      simp [hold] at hphase

end Calls

section Runs
variable (lib : TotpLibrary) (verifyPassword : String → String → Bool)

/-- The wrong guesses since a cutoff that were committed when a call counted are among the
failures that it counted. -/
def CountedAll (calls : List GuessCall) (c : GuessCall) : Prop :=
  (calls.countP fun d =>
    (d.account lib = c.account lib && d.wrongSince c.cutoff) && d.loggedBefore c.countedAt) ≤
    c.counted

structure LockoutInv (s : GuessRace) : Prop where
  calls : ∀ c ∈ s.calls, CallInv lib s.clock s.moment c
  logs : ∀ account cutoff,
    (s.calls.countP fun d =>
      (d.account lib = account && d.wrongSince cutoff) && d.loggedAt.isSome) ≤
      failuresSince s.attempts account cutoff
  counts : ∀ c ∈ s.calls, c.phase = .passed ∨ c.phase = .checking → CountedAll lib s.calls c
  bounded : BoundedGuesses lib s

variable {lib verifyPassword} {s : GuessRace} {c : GuessCall}

theorem failuresSince_append (xs ys : List LoginAttempt) (email : String) (cutoff : Int) :
    failuresSince (xs ++ ys) email cutoff =
      failuresSince xs email cutoff + failuresSince ys email cutoff := by
  rw [failuresSince, List.countP_append]
  rfl

theorem advance_loggedBefore (h : CallInv lib s.clock s.moment c) (account : String)
    (cutoff : Int) {moment : Nat} (hmoment : moment ≤ s.moment) :
    (((advance lib verifyPassword s c).account lib = account &&
        (advance lib verifyPassword s c).wrongSince cutoff) &&
      (advance lib verifyPassword s c).loggedBefore moment) =
    ((c.account lib = account && c.wrongSince cutoff) && c.loggedBefore moment) := by
  cases advance_loggedAt verifyPassword s h with
  | inl hcommit =>
      obtain ⟨entry, -, hnone, heq⟩ := hcommit
      have hbefore : (advance lib verifyPassword s c).loggedBefore moment = false := by
        rw [heq]
        exact decide_eq_false (Nat.not_lt.mpr hmoment)
      rw [hbefore, GuessCall.loggedBefore, hnone, Option.any_none, Bool.and_false, Bool.and_false]
  | inr hother =>
      cases hother.2 with
      | inl hsame => rw [hsame]
      | inr hnone =>
          rw [GuessCall.loggedBefore, GuessCall.loggedBefore, hnone.1, hnone.2, Option.any_none,
            Bool.and_false, Bool.and_false]

namespace LockoutInv

theorem logs_advance (h : LockoutInv lib s) {i : Nat} (hi : s.calls[i]? = some c)
    (account : String) (cutoff : Int) :
    ((s.calls.set i (advance lib verifyPassword s c)).countP fun d =>
      (d.account lib = account && d.wrongSince cutoff) && d.loggedAt.isSome) ≤
      failuresSince (s.attempts ++ c.phase.entry) account cutoff := by
  have hc := h.calls c (List.mem_of_getElem? hi)
  have hold := h.logs account cutoff
  rw [failuresSince_append]
  cases advance_loggedAt verifyPassword s hc with
  | inl hcommit =>
      obtain ⟨entry, hphase, hnone, heq⟩ := hcommit
      have hbefore :
          ((c.account lib = account && c.wrongSince cutoff) && c.loggedAt.isSome) = false := by
        rw [hnone, Option.isSome_none, Bool.and_false]
      cases hafter : (((advance lib verifyPassword s c).account lib = account &&
          (advance lib verifyPassword s c).wrongSince cutoff) &&
            (advance lib verifyPassword s c).loggedAt.isSome) with
      | false =>
          rw [countP_set_of_eq hi (hafter.trans hbefore.symm)]
          omega
      | true =>
          rw [countP_set_of_new hi hbefore hafter, hphase]
          rw [heq, Bool.and_eq_true, Bool.and_eq_true, decide_eq_true_iff] at hafter
          obtain ⟨⟨haccount, hwrong⟩, -⟩ := hafter
          obtain ⟨t, ht, hle⟩ := Option.any_eq_true _ _ |>.mp hwrong
          obtain ⟨hemail, hsuccess, htime⟩ := hc.inserting t ht entry hphase
          have hcutoff : cutoff ≤ entry.attemptedAt :=
            Int.le_trans (of_decide_eq_true hle) htime
          have hone : failuresSince [entry] account cutoff = 1 := by
            have hmatch : (entry.email = account && !entry.success &&
                decide (cutoff ≤ entry.attemptedAt)) = true := by
              simp [hemail.trans haccount, hsuccess, hcutoff]
            rw [failuresSince, List.countP_singleton, if_pos hmatch]
          rw [GuessPhase.entry, hone]
          omega
  | inr hother =>
      rw [hother.1]
      rw [countP_set_of_eq hi]
      · exact Nat.le_trans hold (Nat.le_add_right _ _)
      · cases hother.2 with
        | inl hsame => rw [hsame]
        | inr hnone =>
            rw [hnone.1, hnone.2, Option.isSome_none, Bool.and_false, Bool.and_false]

theorem counts_advance (h : LockoutInv lib s) {i : Nat} (hi : s.calls[i]? = some c) :
    ∀ x ∈ s.calls.set i (advance lib verifyPassword s c), x.phase = .passed ∨ x.phase = .checking →
      CountedAll lib (s.calls.set i (advance lib verifyPassword s c)) x := by
  have hc := h.calls c (List.mem_of_getElem? hi)
  have hkeep : ∀ x : GuessCall, x.countedAt ≤ s.moment →
      (CountedAll lib (s.calls.set i (advance lib verifyPassword s c)) x ↔
        CountedAll lib s.calls x) := by
    intro x hx
    rw [CountedAll, CountedAll, countP_set_of_eq hi (advance_loggedBefore hc _ _ hx)]
  apply forall_mem_set
  · intro x hx hphase
    exact (hkeep x (h.calls x hx).counted_le).mpr (h.counts x hx hphase)
  · intro hphase
    cases advance_counted verifyPassword s hphase with
    | inl hcounting =>
        obtain ⟨cutoff, -, heq⟩ := hcounting
        have hall : CountedAll lib s.calls (countFailures lib s c cutoff) := by
          have hlogs := h.logs (c.account lib) cutoff
          have hsame : (s.calls.countP fun d =>
              (d.account lib = c.account lib && d.wrongSince cutoff) && d.loggedBefore s.moment) =
              s.calls.countP fun d =>
                (d.account lib = c.account lib && d.wrongSince cutoff) && d.loggedAt.isSome := by
            apply List.countP_congr
            intro d hd
            have hlogged : d.loggedBefore s.moment = d.loggedAt.isSome := by
              rw [GuessCall.loggedBefore]
              cases hm : d.loggedAt with
              | none => rfl
              | some m => exact decide_eq_true ((h.calls d hd).logged_lt m hm)
            rw [hlogged]
          rw [← hsame] at hlogs
          exact hlogs
        rw [heq] at hkeep ⊢
        exact (hkeep _ (Nat.le_refl _)).mpr hall
    | inr hpassed =>
        obtain ⟨hold, heq⟩ := hpassed
        have hall : CountedAll lib s.calls (prepare s c) :=
          h.counts c (List.mem_of_getElem? hi) (.inl hold)
        rw [heq] at hkeep ⊢
        exact (hkeep _ hc.counted_le).mpr hall

theorem bounded_advance (h : LockoutInv lib s) {i : Nat} (hi : s.calls[i]? = some c)
    (hguard : ChecksInTime lib verifyPassword s (.advance i)) (account : String) (start : Int) :
    ((s.calls.set i (advance lib verifyPassword s c)).countP fun d =>
      d.account lib = account && d.wrongIn start) ≤ lockoutThreshold := by
  have hmem := List.mem_of_getElem? hi
  have hc := h.calls c hmem
  have hold := h.bounded account start
  cases advance_wrongAt verifyPassword s hc with
  | inr hother =>
      rw [countP_set_of_eq hi]
      · exact hold
      · rw [GuessCall.wrongIn, GuessCall.wrongIn, hother.1]
        cases hother.2 with
        | inl hnone => rw [hnone, Option.any_none, Bool.and_false, Bool.and_false]
        | inr hsame => rw [hsame]
  | inl hwrong =>
      obtain ⟨hphase, hverdict, hat, haccount⟩ := hwrong
      have hnone : c.wrongAt = none := hc.unguessed (by rw [hphase]; rfl)
      have hbefore : (c.account lib = account && c.wrongIn start) = false := by
        rw [GuessCall.wrongIn, hnone, Option.any_none, Bool.and_false]
      cases hafter : ((advance lib verifyPassword s c).account lib = account &&
          (advance lib verifyPassword s c).wrongIn start) with
      | false =>
          rw [countP_set_of_eq hi (hafter.trans hbefore.symm)]
          exact hold
      | true =>
          rw [countP_set_of_new hi hbefore hafter]
          have hfew := hguard c hi hphase hverdict
          rw [haccount, GuessCall.wrongIn, hat, Bool.and_eq_true, decide_eq_true_iff,
            Option.any_some, Bool.and_eq_true, decide_eq_true_iff, decide_eq_true_iff] at hafter
          obtain ⟨haccount', hstart, hend⟩ := hafter
          -- whatever lies in the window was verified in the last fifteen minutes
          have hrecent : (s.calls.countP fun d => d.account lib = account && d.wrongIn start) ≤
              s.calls.countP fun d =>
                d.account lib = c.account lib && d.wrongSince (s.clock - lockoutWindow) := by
            apply List.countP_mono_left
            intro d _ hd
            rw [Bool.and_eq_true, decide_eq_true_iff] at hd
            obtain ⟨t, ht, hin⟩ := Option.any_eq_true _ _ |>.mp hd.2
            rw [Bool.and_eq_true, decide_eq_true_iff, decide_eq_true_iff] at hin
            rw [Bool.and_eq_true, decide_eq_true_iff, GuessCall.wrongSince, ht, Option.any_some,
              decide_eq_true_iff]
            exact ⟨hd.1.trans haccount'.symm, by omega⟩
          have hseen : (s.calls.countP fun d =>
              (d.account lib = c.account lib && d.wrongSince (s.clock - lockoutWindow)) &&
                d.loggedBefore c.countedAt) ≤ c.counted := by
            refine Nat.le_trans ?_ (h.counts c hmem (.inr hphase))
            apply List.countP_mono_left
            intro d _ hd
            have hcutoff := hc.cutoff_le (.inr hphase)
            rw [Bool.and_eq_true, Bool.and_eq_true] at hd ⊢
            refine ⟨⟨hd.1.1, ?_⟩, hd.2⟩
            obtain ⟨t, ht, hle⟩ := Option.any_eq_true _ _ |>.mp hd.1.2
            have hle' := of_decide_eq_true hle
            rw [GuessCall.wrongSince, ht, Option.any_some, decide_eq_true_iff]
            omega
          have hsplit := countP_split
            (fun d => d.account lib = c.account lib && d.wrongSince (s.clock - lockoutWindow))
            (fun d => d.loggedBefore c.countedAt) s.calls
          rw [unseenGuesses] at hfew
          omega

theorem step (h : LockoutInv lib s) {a : GuessStep}
    (hguard : ChecksInTime lib verifyPassword s a) :
    LockoutInv lib (guessStep lib verifyPassword s a) := by
  cases a with
  | tick elapsed =>
      refine ⟨?_, h.logs, h.counts, h.bounded⟩
      intro c hc
      have hclock : s.clock ≤ s.clock + elapsed := by omega
      exact (h.calls c hc).later hclock (Nat.le_succ _)
  | setAdmins admins =>
      refine ⟨?_, h.logs, h.counts, h.bounded⟩
      intro c hc
      exact (h.calls c hc).later (Int.le_refl _) (Nat.le_succ _)
  | begin request =>
      have hnew : ∀ p : GuessCall → Bool, p { request := request } = false →
          (s.calls ++ [({ request := request } : GuessCall)]).countP p = s.calls.countP p := by
        intro p hp
        rw [countP_concat, hp]
        rfl
      refine ⟨?_, ?_, ?_, ?_⟩
      · apply forall_mem_append_singleton
        · intro c hc
          exact (h.calls c hc).later (Int.le_refl _) (Nat.le_succ _)
        · apply CallInv.of_none rfl rfl (Nat.zero_le _)
          · intro hpassed
            simp at hpassed
          · intro cutoff hcounting
            cases hcounting
      · intro account cutoff
        have hcount := hnew (fun d => (d.account lib = account && d.wrongSince cutoff) &&
          d.loggedAt.isSome) (Bool.and_false _)
        exact Nat.le_trans (Nat.le_of_eq hcount) (h.logs account cutoff)
      · apply forall_mem_append_singleton
        · intro c hc hphase
          have hcount := hnew (fun d => (d.account lib = c.account lib && d.wrongSince c.cutoff) &&
            d.loggedBefore c.countedAt) (Bool.and_false _)
          exact Nat.le_trans (Nat.le_of_eq hcount) (h.counts c hc hphase)
        · intro hpassed
          simp at hpassed
      · intro account start
        have hcount := hnew (fun d => d.account lib = account && d.wrongIn start) (Bool.and_false _)
        exact Nat.le_trans (Nat.le_of_eq hcount) (h.bounded account start)
  | advance i =>
      rw [guessStep]
      cases hi : s.calls[i]? with
      | none => exact h
      | some c =>
          have hc := h.calls c (List.mem_of_getElem? hi)
          refine ⟨?_, h.logs_advance hi, h.counts_advance hi, h.bounded_advance hi hguard⟩
          apply forall_mem_set
          · intro x hx
            exact (h.calls x hx).later (Int.le_refl _) (Nat.le_succ _)
          · exact hc.advance verifyPassword

end LockoutInv

theorem lockoutInv_noGuesses (lib : TotpLibrary) (admins : List AdminCredentials)
    (attempts : List LoginAttempt) (clock : Int) :
    LockoutInv lib (noGuesses admins attempts clock) where
  calls c hc := by cases hc
  logs _ _ := Nat.zero_le _
  counts c hc := by cases hc
  bounded _ _ := Nat.zero_le _

end Runs

/-- While no guess is verified that the check would have refused had it seen the others, at
most five wrong ones are verified in any fifteen minutes. -/
theorem lockout_bounds_guessing (lib : TotpLibrary) (verifyPassword : String → String → Bool)
    (admins : List AdminCredentials) (attempts : List LoginAttempt) (clock : Int)
    (run : List GuessStep)
    (h : AllSteps (guessStep lib verifyPassword) (ChecksInTime lib verifyPassword)
      (noGuesses admins attempts clock) run) :
    Always (guessStep lib verifyPassword) (BoundedGuesses lib)
      (noGuesses admins attempts clock) run :=
  (always_of_allSteps (P := LockoutInv lib) (fun _ _ hs hguard => hs.step hguard)
    (lockoutInv_noGuesses lib admins attempts clock) h).mono fun _ hs => hs.bounded

section Sample

def sampleLockoutLibrary : TotpLibrary where
  lower := id
  isspace := fun c => c = ' '
  isdigit := Char.isDigit
  decrypt := fun secret _ => some secret
  verify := fun secret code _ => secret = code

def oneAdmin : List AdminCredentials :=
  [{ id := 1
     email := "admin@example.com"
     totpSecretCiphertext := some "123456"
     totpEnrolled := true
     status := .active
     passwordHash := "right" }]

def wrongLogin : GuessStep := .begin (.login "admin@example.com" "wrong" "10.0.0.1")

/-- One call after the other, up to its end. -/
def inTurn (calls : Nat) : List GuessStep :=
  (List.range calls).flatMap fun i => wrongLogin :: List.replicate 7 (.advance i)

/-- All calls take each of their steps before any of them takes the next. -/
def inStep (calls : Nat) : List GuessStep :=
  List.replicate calls wrongLogin ++
    (List.replicate 5 ((List.range calls).map GuessStep.advance)).flatten

theorem lockout_bounds_inTurn :
    Always (guessStep sampleLockoutLibrary fun password hash => password = hash)
      (BoundedGuesses sampleLockoutLibrary) (noGuesses oneAdmin [] 0) (inTurn 6) :=
  lockout_bounds_guessing _ _ oneAdmin [] 0 (inTurn 6) (by decide +kernel)

/-- Six wrong passwords are verified at once. -/
theorem six_guesses :
    ¬ Always (guessStep sampleLockoutLibrary fun password hash => password = hash)
      (BoundedGuesses sampleLockoutLibrary) (noGuesses oneAdmin [] 0) (inStep 6) := by
  apply not_always_of_last
  intro h
  have hbound := h "admin@example.com" 0
  revert hbound
  decide +kernel

end Sample

end Engramia.AdminAuth
