import Engramia.Library.Run
import Engramia.Library.Tally
import Mathlib.Algebra.Order.Field.Rat
import Mathlib.Data.List.Infix
import Mathlib.Tactic.Ring

/-!
The session of the Vault client: one token, the timer that renews it, and the calls that are made
with it. What runs under the lock of the client is one step. The check of the timer's callback is
not under it, nor is a call of the Transit engine, so both meet a session that others have moved
on. Vault's answers come with the steps.
-/
namespace Engramia.Credentials
open Engramia.Library

/-- The `auth` of an answer to a login, without a lease as zero. -/
structure VaultAuth where
  clientToken : Option String
  leaseDuration : ℚ

inductive TimerState where
  | pending
  | cancelled
  | fired
deriving DecidableEq

/-- A `threading.Timer`, and when it was started. -/
structure VaultTimer where
  startedAt : ℚ
  delay : ℚ
  state : TimerState

/-- A call of `_renew_or_relogin`. -/
inductive RenewalPhase where
  | fired
  /-- Past the check, before the lock. -/
  | waiting
  | ended
deriving DecidableEq

/-- A call of `_with_token`, with the clients it has run on. -/
inductive TransitPhase where
  | calling (client : ℕ)
  | relogging (client : ℕ)
  | retrying (client : ℕ)
  | recalling (client client' : ℕ)
  | returned
  | raised

/-- A client is named by the login that made it. -/
structure VaultSession where
  client : ℕ
  tokenExpiresAt : ℚ
  timers : List VaultTimer
  renewalTimer : Option ℕ
  closed : Bool
  renewals : List RenewalPhase
  calls : List TransitPhase

inductive TransitAnswer where
  | result
  | error (message : String)

inductive VaultStep where
  | begin
  | answer (call : ℕ) (answer : TransitAnswer)
  | relogin (call : ℕ) (now : ℚ) (auth : Option VaultAuth)
  | again (call : ℕ)
  | fire (timer : ℕ)
  | check (renewal : ℕ)
  /-- With the lease of the renewal and the answer to a login, where they are asked for. -/
  | renew (renewal : ℕ) (now : ℚ) (lease : Option ℚ) (auth : Option VaultAuth)
  | close

section Definitions

/-- `_MIN_TOKEN_TTL_SECONDS` -/
def minTokenTtl : ℚ := 300

def cancelTimer (t : VaultTimer) : VaultTimer :=
  if t.state = .pending then { t with state := .cancelled } else t

/-- `_is_token_invalid`, of the message in lower case. -/
def isTokenInvalid (lower : String → String) (message : String) : Bool :=
  ["permission denied", "missing client token", "invalid token"].any fun s =>
    s.toList <:+: (lower message).toList

namespace VaultSession
variable (s : VaultSession)

/-- `self._renewal_timer.cancel()` -/
def cancelRenewal : VaultSession :=
  match s.renewalTimer with
  | none => s
  | some t => { s with timers := s.timers.modify t cancelTimer }

/-- `_schedule_renewal_locked` -/
def scheduleRenewal (now delay : ℚ) : VaultSession :=
  let s := s.cancelRenewal
  if s.closed then s
  else
    { s with
      timers := s.timers ++ [⟨now, delay, .pending⟩]
      renewalTimer := some s.timers.length }

/-- `_login_locked`, which raises without a token. -/
def login (now : ℚ) (auth : Option VaultAuth) : Option VaultSession :=
  match auth with
  | none => none
  | some auth =>
      if auth.clientToken.getD "" = "" then none
      else
        let ttl :=
          if auth.leaseDuration < minTokenTtl then max auth.leaseDuration 60
          else auth.leaseDuration
        some ({ s with
          client := s.client + 1
          tokenExpiresAt := now + ttl }.scheduleRenewal now (ttl / 2))

def setCall (i : ℕ) (phase : TransitPhase) : VaultSession :=
  { s with calls := s.calls.set i phase }

def setRenewal (i : ℕ) (phase : RenewalPhase) : VaultSession :=
  { s with renewals := s.renewals.set i phase }

/-- What a callback does under the lock. -/
def renew (now : ℚ) (lease : Option ℚ) (auth : Option VaultAuth) : VaultSession :=
  if 0 < lease.getD 0 then
    { s with tokenExpiresAt := now + lease.getD 0 }.scheduleRenewal now (lease.getD 0 / 2)
  else (s.login now auth).getD (s.scheduleRenewal now 60)

def close : VaultSession :=
  { s.cancelRenewal with closed := true, renewalTimer := none }

def step (lower : String → String) (s : VaultSession) : VaultStep → VaultSession
  | .begin => { s with calls := s.calls ++ [.calling s.client] }
  | .answer i answer =>
      match s.calls[i]?, answer with
      | some (.calling _), .result => s.setCall i .returned
      | some (.calling client), .error message =>
          s.setCall i (if isTokenInvalid lower message then .relogging client else .raised)
      | some (.recalling _ _), .result => s.setCall i .returned
      | some (.recalling _ _), .error _ => s.setCall i .raised
      | _, _ => s
  | .relogin i now auth =>
      match s.calls[i]? with
      | some (.relogging client) =>
          match s.login now auth with
          | none => s.setCall i .raised
          | some s => s.setCall i (.retrying client)
      | _ => s
  | .again i =>
      match s.calls[i]? with
      | some (.retrying client) => s.setCall i (.recalling client s.client)
      | _ => s
  | .fire t =>
      match s.timers[t]? with
      | some timer =>
          if timer.state = .pending then
            { s with
              timers := s.timers.set t { timer with state := .fired }
              renewals := s.renewals ++ [.fired] }
          else s
      | none => s
  | .check i =>
      if s.renewals[i]? = some .fired then s.setRenewal i (if s.closed then .ended else .waiting)
      else s
  | .renew i now lease auth =>
      if s.renewals[i]? = some .waiting then (s.renew now lease auth).setRenewal i .ended else s
  | .close => s.close

/-- `__init__`, which raises where the login does. -/
def opened (now : ℚ) (auth : Option VaultAuth) : Option VaultSession :=
  VaultSession.login
    { client := 0, tokenExpiresAt := 0, timers := [], renewalTimer := none, closed := false
      renewals := [], calls := [] } now auth

/-- The timer is in force, at half of what the token was given, or to try again. -/
def InForce (timer : VaultTimer) : Prop :=
  s.closed = false ∧ timer.state = .pending ∧
    (timer.delay = 60 ∨ s.tokenExpiresAt = timer.startedAt + 2 * timer.delay)

/-- What a call has run on is older than what it runs on after its login. -/
def CallRight : TransitPhase → Prop
  | .calling client | .relogging client => client ≤ s.client
  | .retrying client => client < s.client
  | .recalling client client' => client < client' ∧ client' ≤ s.client
  | .returned | .raised => True

/-- At most one timer is pending, none on a closed session, and an open one has a timer pending or
a callback under way. -/
structure KeptAlive : Prop where
  pending : ∀ t timer, s.timers[t]? = some timer → timer.state = .pending →
    s.renewalTimer = some t ∧ s.InForce timer
  alive : s.closed = false →
    (∃ timer ∈ s.timers, timer.state = .pending) ∨ ∃ renewal ∈ s.renewals, renewal ≠ .ended
  calls : ∀ call ∈ s.calls, s.CallRight call

end VaultSession

end Definitions

namespace VaultSession
variable {s : VaultSession} {now delay : ℚ} {auth : Option VaultAuth} {t i : ℕ}
  {timer : VaultTimer}

section Timers

/-- Only the recorded timer is pending. -/
def PendingRecorded (s : VaultSession) : Prop :=
  ∀ t timer, s.timers[t]? = some timer → timer.state = .pending → s.renewalTimer = some t

/-- Every pending timer is in force. -/
def Timed (s : VaultSession) : Prop :=
  ∀ t timer, s.timers[t]? = some timer → timer.state = .pending →
    s.renewalTimer = some t ∧ s.InForce timer

theorem cancelTimer_not_pending (timer : VaultTimer) : (cancelTimer timer).state ≠ .pending := by
  rw [cancelTimer]
  split_ifs with hpending
  · simp
  · exact hpending

theorem cancelRenewal_eq (s : VaultSession) :
    ∃ timers, s.cancelRenewal = { s with timers := timers } ∧
      (s.PendingRecorded → ∀ timer ∈ timers, timer.state ≠ .pending) := by
  cases Option.eq_none_or_eq_some s.renewalTimer with
  | inl hrecorded =>
      have hkept : s.cancelRenewal = s := by rw [cancelRenewal, hrecorded]
      refine ⟨s.timers, hkept, fun h timer hmem hpending => ?_⟩
      obtain ⟨t, ht⟩ := List.mem_iff_getElem?.mp hmem
      have hnone := h t timer ht hpending
      rw [hrecorded] at hnone
      cases hnone
  | inr hsome =>
      obtain ⟨r, hrecorded⟩ := hsome
      have hcancel : s.cancelRenewal = { s with timers := s.timers.modify r cancelTimer } := by
        rw [cancelRenewal, hrecorded]
      refine ⟨s.timers.modify r cancelTimer, hcancel, fun h timer hmem hpending => ?_⟩
      obtain ⟨t, ht⟩ := List.mem_iff_getElem?.mp hmem
      rw [List.getElem?_modify] at ht
      obtain ⟨old, hold, hnew⟩ := Option.map_eq_some_iff.mp ht
      by_cases hr : r = t
      · rw [if_pos hr] at hnew
        exact cancelTimer_not_pending old (hnew ▸ hpending)
      · rw [if_neg hr] at hnew
        have hown := h t old hold (hnew ▸ hpending)
        rw [hrecorded] at hown
        exact hr (Option.some.inj hown)

theorem timed_scheduleRenewal (h : s.PendingRecorded)
    (hdelay : delay = 60 ∨ s.tokenExpiresAt = now + 2 * delay) :
    (s.scheduleRenewal now delay).Timed ∧
      (s.closed = false → ∃ timer ∈ (s.scheduleRenewal now delay).timers,
        timer.state = .pending) := by
  obtain ⟨timers, hcancel, hnone⟩ := cancelRenewal_eq s
  have hnone := hnone h
  have hpast : ∀ (t : ℕ) timer, timers[t]? = some timer → timer.state ≠ .pending :=
    fun t timer ht => hnone timer (List.mem_of_getElem? ht)
  rw [scheduleRenewal, hcancel]
  cases hclosed : s.closed with
  | true =>
      simp only [if_true]
      refine ⟨fun t timer ht hpending => absurd hpending (hpast t timer ht), fun hopen => ?_⟩
      cases hopen
  | false =>
      simp only [Bool.false_eq_true, if_false]
      constructor
      · intro t timer ht hpending
        cases getElem?_concat_cases ht with
        | inl hold => exact absurd hpending (hpast t timer hold)
        | inr hnew =>
            obtain ⟨rfl, rfl⟩ := hnew
            exact ⟨rfl, rfl, rfl, hdelay⟩
      · intro _
        exact ⟨⟨now, delay, .pending⟩, List.mem_append_right _ List.mem_cons_self, rfl⟩

theorem scheduleRenewal_other (s : VaultSession) (now delay : ℚ) :
    ∃ timers recorded, s.scheduleRenewal now delay =
      { s with timers := timers, renewalTimer := recorded } := by
  obtain ⟨timers, hcancel, _⟩ := cancelRenewal_eq s
  rw [scheduleRenewal, hcancel]
  split_ifs
  · exact ⟨timers, s.renewalTimer, rfl⟩
  · exact ⟨_, _, rfl⟩

end Timers

section Logins

theorem login_eq_some {s' : VaultSession} (h : s.login now auth = some s') :
    ∃ ttl : ℚ, s' = { s with
      client := s.client + 1
      tokenExpiresAt := now + ttl }.scheduleRenewal now (ttl / 2) := by
  cases auth with
  | none => cases h
  | some auth =>
      simp only [login] at h
      split_ifs at h
      · exact ⟨_, (Option.some.inj h).symm⟩
      · exact ⟨_, (Option.some.inj h).symm⟩

/-- What a login or a renewal makes of a session: a timer for what it was given, or one to try
again. -/
structure Renewed (s s' : VaultSession) : Prop where
  timed : s'.Timed
  pending : s'.closed = false → ∃ timer ∈ s'.timers, timer.state = .pending
  newer : s.client ≤ s'.client
  closed : s'.closed = s.closed
  renewals : s'.renewals = s.renewals
  calls : s'.calls = s.calls

theorem renewed_schedule (h : s.PendingRecorded) {client : ℕ} (hclient : s.client ≤ client)
    {expires : ℚ} (hdelay : delay = 60 ∨ expires = now + 2 * delay) :
    Renewed s ({ s with
      client := client
      tokenExpiresAt := expires }.scheduleRenewal now delay) := by
  let answered : VaultSession := { s with client := client, tokenExpiresAt := expires }
  have hscheduled : (answered.scheduleRenewal now delay).Timed ∧
      (s.closed = false → ∃ timer ∈ (answered.scheduleRenewal now delay).timers,
        timer.state = .pending) :=
    timed_scheduleRenewal (s := answered) h hdelay
  obtain ⟨htimed, hpending⟩ := hscheduled
  obtain ⟨timers, recorded, hother⟩ := scheduleRenewal_other answered now delay
  change (answered.scheduleRenewal now delay).Timed at htimed
  change Renewed s (answered.scheduleRenewal now delay)
  rw [hother] at htimed hpending ⊢
  exact ⟨htimed, hpending, hclient, rfl, rfl, rfl⟩

theorem renewed_login (h : s.PendingRecorded) {s' : VaultSession}
    (hlogin : s.login now auth = some s') : Renewed s s' ∧ s.client < s'.client := by
  obtain ⟨ttl, rfl⟩ := login_eq_some hlogin
  refine ⟨renewed_schedule h (Nat.le_succ _) (.inr (by ring)), ?_⟩
  obtain ⟨timers, recorded, hother⟩ := scheduleRenewal_other
    { s with client := s.client + 1, tokenExpiresAt := now + ttl } now (ttl / 2)
  rw [hother]
  exact Nat.lt_succ_self _

theorem renewed_renew (h : s.PendingRecorded) (now : ℚ) (lease : Option ℚ)
    (auth : Option VaultAuth) : Renewed s (s.renew now lease auth) := by
  rw [renew]
  split_ifs
  · exact renewed_schedule h le_rfl (.inr (by ring))
  · cases hlogin : s.login now auth with
    | none => exact renewed_schedule h le_rfl (.inl rfl)
    | some s' => exact (renewed_login h hlogin).1

end Logins

section Steps
variable {lower : String → String}

theorem CallRight.mono {s' : VaultSession} {call : TransitPhase} (h : s.CallRight call)
    (hnewer : s.client ≤ s'.client) : s'.CallRight call := by
  cases call with
  | calling client => exact le_trans h hnewer
  | relogging client => exact le_trans h hnewer
  | retrying client => exact lt_of_lt_of_le h hnewer
  | recalling client client' => exact ⟨h.1, le_trans h.2 hnewer⟩
  | returned => trivial
  | raised => trivial

namespace KeptAlive

theorem recorded (h : KeptAlive s) : s.PendingRecorded :=
  fun t timer ht hpending => (h.pending t timer ht hpending).1

theorem setCall (h : KeptAlive s) (i : ℕ) (phase : TransitPhase) (hphase : s.CallRight phase) :
    KeptAlive (s.setCall i phase) where
  pending := h.pending
  alive := h.alive
  calls := forall_mem_set h.calls hphase

theorem renewed {s' : VaultSession} (h : KeptAlive s) (hrenewed : Renewed s s') :
    KeptAlive s' where
  pending := hrenewed.timed
  alive hopen := .inl (hrenewed.pending hopen)
  calls := by
    rw [hrenewed.calls]
    exact fun call hcall => (h.calls call hcall).mono hrenewed.newer

theorem endRenewal (h : KeptAlive s)
    (hpending : s.closed = false → ∃ timer ∈ s.timers, timer.state = .pending) (i : ℕ) :
    KeptAlive (s.setRenewal i .ended) where
  pending := h.pending
  alive hopen := .inl (hpending hopen)
  calls := h.calls

theorem step (h : KeptAlive s) (a : VaultStep) : KeptAlive (s.step lower a) := by
  cases a with
  | begin =>
      exact ⟨h.pending, h.alive, forall_mem_append_singleton h.calls le_rfl⟩
  | answer i answer =>
      simp only [VaultSession.step]
      split
      case h_1 => exact h.setCall i .returned trivial
      case h_2 client message hcall =>
          have hclient : client ≤ s.client := h.calls _ (List.mem_of_getElem? hcall)
          split_ifs
          · exact h.setCall i (.relogging client) hclient
          · exact h.setCall i .raised trivial
      case h_3 => exact h.setCall i .returned trivial
      case h_4 => exact h.setCall i .raised trivial
      case h_5 => exact h
  | relogin i now auth =>
      simp only [VaultSession.step]
      split
      case h_1 client hcall =>
          cases hlogin : s.login now auth with
          | none => exact h.setCall i .raised trivial
          | some s' =>
              obtain ⟨hrenewed, hnewer⟩ := renewed_login h.recorded hlogin
              have hclient : client ≤ s.client := h.calls _ (List.mem_of_getElem? hcall)
              exact (h.renewed hrenewed).setCall i (.retrying client)
                (lt_of_le_of_lt hclient hnewer)
      case h_2 => exact h
  | again i =>
      simp only [VaultSession.step]
      split
      case h_1 client hcall =>
          have hclient : client < s.client := h.calls _ (List.mem_of_getElem? hcall)
          exact h.setCall i (.recalling client s.client) ⟨hclient, le_rfl⟩
      case h_2 => exact h
  | fire t =>
      simp only [VaultSession.step]
      split
      case h_1 timer ht =>
          split_ifs with hpending
          · refine ⟨fun t' timer' ht' hpending' => ?_, fun _ => .inr ?_, h.calls⟩
            · cases getElem?_set_cases ht' with
              | inl hold => exact h.pending t' timer' hold.2 hpending'
              | inr hnew =>
                  rw [hnew.2] at hpending'
                  cases hpending'
            · exact ⟨.fired, List.mem_append_right _ List.mem_cons_self, by decide⟩
          · exact h
      case h_2 => exact h
  | check i =>
      simp only [VaultSession.step]
      split_ifs with hfired hclosed
      · refine ⟨h.pending, fun hopen => ?_, h.calls⟩
        rw [show s.closed = false from hopen] at hclosed
        cases hclosed
      · refine ⟨h.pending, fun _ => .inr ⟨.waiting, ?_, by decide⟩, h.calls⟩
        exact List.mem_set (List.getElem?_eq_some_iff.mp hfired).1 _
      · exact h
  | renew i now lease auth =>
      simp only [VaultSession.step]
      split_ifs
      · have hrenewed := renewed_renew h.recorded now lease auth
        exact (h.renewed hrenewed).endRenewal hrenewed.pending i
      · exact h
  | close =>
      obtain ⟨timers, hcancel, hnone⟩ := cancelRenewal_eq s
      simp only [VaultSession.step, VaultSession.close, hcancel]
      constructor
      · intro t timer ht hpending
        exact absurd hpending (hnone h.recorded timer (List.mem_of_getElem? ht))
      · intro hopen
        cases hopen
      · exact h.calls

theorem closed_step (h : KeptAlive s) (hclosed : s.closed = true) (a : VaultStep) :
    (s.step lower a).closed = true := by
  cases a with
  | begin => exact hclosed
  | answer i answer =>
      simp only [VaultSession.step]
      split <;> exact hclosed
  | relogin i now auth =>
      simp only [VaultSession.step]
      split
      case h_1 =>
          cases hlogin : s.login now auth with
          | none => exact hclosed
          | some s' => exact (renewed_login h.recorded hlogin).1.closed.trans hclosed
      case h_2 => exact hclosed
  | again i =>
      simp only [VaultSession.step]
      split <;> exact hclosed
  | fire t =>
      simp only [VaultSession.step]
      split
      case h_1 => split_ifs <;> exact hclosed
      case h_2 => exact hclosed
  | check i =>
      simp only [VaultSession.step]
      split_ifs <;> exact hclosed
  | renew i now lease auth =>
      simp only [VaultSession.step]
      split_ifs
      · exact (renewed_renew h.recorded now lease auth).closed.trans hclosed
      · exact hclosed
  | close => rfl

theorem idle (h : KeptAlive s) (hclosed : s.closed = true) :
    ∀ timer ∈ s.timers, timer.state ≠ .pending := by
  intro timer hmem hpending
  obtain ⟨t, ht⟩ := List.mem_iff_getElem?.mp hmem
  have hopen := (h.pending t timer ht hpending).2.1
  rw [hclosed] at hopen
  cases hopen

theorem opened (hopened : VaultSession.opened now auth = some s) : KeptAlive s := by
  obtain ⟨hrenewed, _⟩ := renewed_login (fun t timer ht => by cases ht) hopened
  refine ⟨hrenewed.timed, fun hopen => .inl (hrenewed.pending hopen), ?_⟩
  rw [hrenewed.calls]
  exact fun call hcall => by cases hcall

end KeptAlive

end Steps

/-- However the calls, the timers' callbacks and a closing meet, the session has one timer in force
or a callback under way until it is closed, and no timer afterwards. A call that is refused for its
token runs again at most once, on a client that was made after the refused one. -/
theorem session_kept_alive (lower : String → String) (now : ℚ) (auth : Option VaultAuth)
    (hopened : opened now auth = some s) (steps : List VaultStep) :
    Always (step lower) KeptAlive s steps ∧
      ∀ steps', (exec (step lower) s steps).closed = true →
        Always (step lower) (fun s => s.closed = true ∧ ∀ timer ∈ s.timers, timer.state ≠ .pending)
          (exec (step lower) s steps) steps' := by
  have hall : ∀ steps, Always (step lower) KeptAlive s steps :=
    always_of_step (fun _ a h => h.step a) (KeptAlive.opened hopened)
  refine ⟨hall steps, fun steps' hclosed => ?_⟩
  have hboth : ∀ (s : VaultSession) a, KeptAlive s ∧ s.closed = true →
      KeptAlive (s.step lower a) ∧ (s.step lower a).closed = true :=
    fun _ a h => ⟨h.1.step a, h.1.closed_step h.2 a⟩
  have hrest := always_of_step hboth ⟨(hall steps).last, hclosed⟩ steps'
  exact hrest.mono fun s h => ⟨h.2, h.1.idle h.2⟩

theorem session_kept_alive_once :
    ∃ s, opened 0 (some ⟨some "token", 3600⟩) = some s ∧
      Always (step id) KeptAlive s [.begin, .fire 0, .close, .check 0] :=
  ⟨_, rfl, (session_kept_alive id 0 (some ⟨some "token", 3600⟩) rfl _).1⟩

end VaultSession

end Engramia.Credentials
