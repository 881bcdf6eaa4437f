import Engramia.CloudAuth.Registration
import Engramia.Governance.Erasure
import Engramia.Library.Run
import Engramia.Library.Tally

/-!
Concurrent approve and reject calls on one pilot request. An approval reads the request,
commits a registration and then, in a third transaction, marks the request; a rejection reads
the request and updates it in one transaction, whose UPDATE takes the row as it is by then. A
transaction that only inserts is one step, since an insert in conflict with one that is not
committed yet waits for it. Any step may fail and ends its call. E-mails and the event log are
left out.
-/
namespace Engramia.Pilots
open Engramia.Library Engramia.CloudAuth Engramia.Governance.Database

inductive PilotStatus where
  | pending
  | approved
  | rejected
deriving DecidableEq

def PilotStatus.text : PilotStatus → String
  | .pending => "pending"
  | .approved => "approved"
  | .rejected => "rejected"

structure PilotRequest where
  id : String
  email : String
  name : String
  planInterest : String
  status : PilotStatus
  rejectionReason : Option String
  tenantId : Option String
  approvedAt : Option Int
  rejectedAt : Option Int

/-- `_VALID_PLANS`. -/
def validPlans : List String := ["developer", "pro", "team", "business", "enterprise"]

structure PilotEnv where
  lower : String → String
  hashPassword : String → String

/-- What a call draws: its one-time password and its uuids. -/
structure Draws where
  password : String
  slugUuid : String
  projectId : String
  userId : String

inductive PilotDecision where
  | approve (plan : Option String)
  | reject (reason : String)

def PilotDecision.status : PilotDecision → PilotStatus
  | .approve _ => .approved
  | .reject _ => .rejected

inductive PilotOutcome where
  | succeeded
  | refused (refusal : Refusal)
  | failed
deriving DecidableEq

inductive PilotPhase where
  | arrived
  | naming (plan email name : String)
  | registering (plan email name tenantId : String)
  | marking (plan tenantId userId : String)
  | updating (reason : String)
  | notifying
  | ended (outcome : PilotOutcome)
deriving DecidableEq

structure PilotCall where
  decision : PilotDecision
  draws : Draws
  phase : PilotPhase := .arrived

structure PilotDesk where
  accounts : Accounts
  request : PilotRequest
  calls : List PilotCall

inductive PilotStep where
  | begin (decision : PilotDecision) (draws : Draws)
  | advance (call : Nat) (now : Int) (fails : Bool)

def alreadyDecided (status : PilotStatus) : Refusal :=
  ⟨409, "Pilot request already " ++ status.text⟩

def invalidPlan (plan : String) : Refusal := ⟨400, "Invalid plan: " ++ plan⟩

/-- `(body.plan or plan_interest).lower()`. -/
def targetPlan (env : PilotEnv) (request : PilotRequest) (plan : Option String) : String :=
  env.lower (if plan.getD "" = "" then request.planInterest else plan.getD "")

/-- The checks of a call on the request as it reads it. -/
def admitted (env : PilotEnv) (request : PilotRequest) (decision : PilotDecision) : PilotPhase :=
  if request.status ≠ .pending then .ended (.refused (alreadyDecided request.status))
  else
    match decision with
    | .approve plan =>
        if targetPlan env request plan ∈ validPlans then
          .naming (targetPlan env request plan) request.email request.name
        else .ended (.refused (invalidPlan (targetPlan env request plan)))
    | .reject reason => .updating reason

def registration (env : PilotEnv) (draws : Draws) (email name tenantId : String) :
    Registration where
  email := email
  passwordHash := some (env.hashPassword draws.password)
  name := some name
  provider := "credentials"
  providerId := none
  emailVerified := true
  apiKey := none
  tenantId := tenantId
  projectId := draws.projectId
  userId := draws.userId

/-- The tenant and the user that an approval completes. -/
def upgraded (accounts : Accounts) (plan tenantId userId : String) : Accounts :=
  { accounts with
    tenants :=
      if plan ≠ "developer" then
        accounts.tenants.update (fun t => t.id = tenantId) (fun t => { t with planTier := plan })
          fun _ => rfl
      else accounts.tenants
    users := accounts.users.update (fun u => u.id = userId)
      (fun u => { u with mustChangePassword := true }) fun _ => rfl }

namespace PilotDesk

def setPhase (s : PilotDesk) (i : Nat) (c : PilotCall) (phase : PilotPhase) : PilotDesk :=
  { s with calls := s.calls.set i { c with phase := phase } }

def register (env : PilotEnv) (s : PilotDesk) (i : Nat) (c : PilotCall)
    (plan email name tenantId : String) : PilotDesk :=
  match s.accounts.createRegistration (registration env c.draws email name tenantId) with
  | none => s.setPhase i c (.ended .failed)
  | some accounts =>
      { s with accounts := accounts }.setPhase i c (.marking plan tenantId c.draws.userId)

def mark (s : PilotDesk) (i : Nat) (c : PilotCall) (now : Int) (plan tenantId userId : String) :
    PilotDesk :=
  { s with
    accounts := upgraded s.accounts plan tenantId userId
    request :=
      { s.request with
        status := .approved
        approvedAt := some now
        tenantId := some tenantId } }.setPhase i c .notifying

def reject (s : PilotDesk) (i : Nat) (c : PilotCall) (now : Int) (reason : String) : PilotDesk :=
  { s with
    request :=
      { s.request with
        status := .rejected
        rejectedAt := some now
        rejectionReason := some reason } }.setPhase i c .notifying

/-- A step of a call that does not fail. -/
def proceed (env : PilotEnv) (s : PilotDesk) (i : Nat) (c : PilotCall) (now : Int) : PilotDesk :=
  match c.phase with
  | .arrived => s.setPhase i c (admitted env s.request c.decision)
  | .naming plan email name =>
      s.setPhase i c (.registering plan email name
        (makeTenantSlug env.lower s.accounts.tenants (emailPrefix email) c.draws.slugUuid))
  | .registering plan email name tenantId => s.register env i c plan email name tenantId
  | .marking plan tenantId userId => s.mark i c now plan tenantId userId
  | .updating reason => s.reject i c now reason
  | .notifying => s.setPhase i c (.ended .succeeded)
  | .ended _ => s

end PilotDesk

def PilotPhase.isOver : PilotPhase → Bool
  | .ended _ => true
  | _ => false

def PilotPhase.isMarking : PilotPhase → Bool
  | .marking _ _ _ => true
  | _ => false

def PilotPhase.isUpdating : PilotPhase → Bool
  | .updating _ => true
  | _ => false

namespace PilotDesk

def step (env : PilotEnv) (s : PilotDesk) : PilotStep → PilotDesk
  | .begin decision draws => { s with calls := s.calls ++ [{ decision := decision, draws := draws }] }
  | .advance i now fails =>
      match s.calls[i]? with
      | none => s
      | some c =>
          if c.phase.isOver then s
          else if fails then s.setPhase i c (.ended .failed)
          else s.proceed env i c now

/-- A pending request, and no call yet. -/
def opened (accounts : Accounts) (id email name planInterest : String) : PilotDesk :=
  ⟨accounts, ⟨id, email, name, planInterest, .pending, none, none, none, none⟩, []⟩

/-- No call is under way. -/
def Settled (s : PilotDesk) : Prop := ∀ c ∈ s.calls, c.phase.isOver = true

/-- A user exists for the request, and its tenant. -/
def Provisioned (s : PilotDesk) : Prop :=
  ∃ user ∈ s.accounts.users.rows, user.email = s.request.email ∧
    (s.accounts.tenants.row? user.tenantId).isSome = true

/-- A call with its draws that the checks let through, now and with new ids. -/
def Admissible (env : PilotEnv) (s : PilotDesk) (decision : PilotDecision) (draws : Draws) : Prop :=
  match decision with
  | .approve plan =>
      targetPlan env s.request plan ∈ validPlans ∧
        s.accounts.tenants.row? (makeTenantSlug env.lower s.accounts.tenants
          (emailPrefix s.request.email) draws.slugUuid) = none ∧
        s.accounts.projects.row? draws.projectId = none ∧
        s.accounts.users.row? draws.userId = none
  | .reject _ => True

/-- One call from its beginning to its end, and no other. -/
def alone (s : PilotDesk) (decision : PilotDecision) (draws : Draws) (now : Int) :
    List PilotStep :=
  .begin decision draws :: List.replicate 5 (.advance s.calls.length now false)

/-- What a request is when no call is under way. -/
structure AtomicDecision (env : PilotEnv) (s : PilotDesk) : Prop where
  provisioned_iff : s.Settled → (s.Provisioned ↔ s.request.status = .approved)
  linked : s.Settled → s.request.status = .approved → ∃ user ∈ s.accounts.users.rows,
    user.email = s.request.email ∧ s.request.tenantId = some user.tenantId
  outcome : ∀ c ∈ s.calls, c.phase = .ended .succeeded → s.request.status = c.decision.status
  retriable : s.Settled → s.request.status = .pending → ∀ decision draws now,
    s.Admissible env decision draws →
      (exec (step env) s (s.alone decision draws now)).Settled ∧
      (exec (step env) s (s.alone decision draws now)).request.status = decision.status

/-- An approval that has registered marks a request that is still pending, and a rejection
does not meet an approved one. -/
def DecidesPending (s : PilotDesk) : PilotStep → Prop
  | .advance i _ fails => ∀ c ∈ s.calls[i]?,
      (c.phase.isMarking = true → fails = false ∧ s.request.status = .pending) ∧
      (c.phase.isUpdating = true → fails = true ∨ s.request.status ≠ .approved)
  | .begin _ _ => True

instance decidableDecidesPending (s : PilotDesk) : (a : PilotStep) → Decidable (s.DecidesPending a)
  | .advance i _ fails => inferInstanceAs (Decidable (∀ c ∈ s.calls[i]?,
      (c.phase.isMarking = true → fails = false ∧ s.request.status = .pending) ∧
      (c.phase.isUpdating = true → fails = true ∨ s.request.status ≠ .approved)))
  | .begin _ _ => isTrue trivial

/-- A user of the request is in the tenant. -/
def Owns (s : PilotDesk) (tenantId : String) : Prop :=
  ∃ user ∈ s.accounts.users.rows, user.email = s.request.email ∧ user.tenantId = tenantId

/-- What a call knows in its phase. -/
def CallInv (s : PilotDesk) (c : PilotCall) : Prop :=
  match c.phase with
  | .naming _ email _ | .registering _ email _ _ =>
      c.decision.status = .approved ∧ email = s.request.email
  | .marking _ tenantId _ => c.decision.status = .approved ∧ s.Owns tenantId
  | .updating _ => c.decision.status = .rejected
  | .notifying | .ended .succeeded => s.request.status = c.decision.status
  | _ => True

/-- A user exists for an approved request and for one whose approval is about to mark it. -/
structure PilotInv (s : PilotDesk) : Prop where
  calls : ∀ c ∈ s.calls, s.CallInv c
  balance : (if s.request.status = .approved then 1 else 0) +
      s.calls.countP (fun c => c.phase.isMarking) =
    if s.accounts.taken s.request.email then 1 else 0
  tenanted : ∀ user ∈ s.accounts.users.rows, user.email = s.request.email →
    (s.accounts.tenants.row? user.tenantId).isSome = true
  linked : s.request.status = .approved → ∃ user ∈ s.accounts.users.rows,
    user.email = s.request.email ∧ s.request.tenantId = some user.tenantId

variable {env : PilotEnv} {s s' : PilotDesk} {i : Nat} {c : PilotCall}

theorem CallInv.frame (h : s.CallInv c) (hemail : s'.request.email = s.request.email)
    (howns : ∀ tenantId, s.Owns tenantId → s'.Owns tenantId)
    (hstatus : s.request.status = c.decision.status → s'.request.status = c.decision.status) :
    s'.CallInv c := by
  rw [CallInv] at h ⊢
  cases hphase : c.phase with
  | arrived => trivial
  | naming plan email name =>
      rw [hphase] at h
      exact ⟨h.1, h.2.trans hemail.symm⟩
  | registering plan email name tenantId =>
      rw [hphase] at h
      exact ⟨h.1, h.2.trans hemail.symm⟩
  | marking plan tenantId userId =>
      rw [hphase] at h
      exact ⟨h.1, howns tenantId h.2⟩
  | updating reason =>
      rw [hphase] at h
      exact h
  | notifying =>
      rw [hphase] at h
      exact hstatus h
  | ended outcome =>
      rw [hphase] at h
      cases outcome with
      | succeeded => exact hstatus h
      | refused refusal => trivial
      | failed => trivial

theorem taken_iff {accounts : Accounts} {email : String} :
    accounts.taken email = true ↔ ∃ user ∈ accounts.users.rows, user.email = email := by
  simp [Accounts.taken, List.any_eq_true]

theorem register_of_some {plan email name tenantId : String} {accounts : Accounts}
    (h : s.accounts.createRegistration (registration env c.draws email name tenantId) =
      some accounts) :
    s.register env i c plan email name tenantId =
      { s with accounts := accounts }.setPhase i c (.marking plan tenantId c.draws.userId) := by
  rw [register, h]

namespace PilotInv

/-- Without a call that is about to mark, the request is approved exactly if its address is
taken. -/
theorem approved_iff_taken (h : PilotInv s)
    (hnone : s.calls.countP (fun c => c.phase.isMarking) = 0) :
    s.request.status = .approved ↔ s.accounts.taken s.request.email = true := by
  have hbalance := h.balance
  rw [hnone] at hbalance
  constructor
  · intro happroved
    rw [if_pos happroved] at hbalance
    by_cases htaken : s.accounts.taken s.request.email = true
    · exact htaken
    · rw [if_neg htaken] at hbalance
      cases hbalance
  · intro htaken
    rw [if_pos htaken] at hbalance
    by_cases happroved : s.request.status = .approved
    · exact happroved
    · rw [if_neg happroved] at hbalance
      cases hbalance

theorem countP_marking (hsettled : s.Settled) :
    s.calls.countP (fun c => c.phase.isMarking) = 0 := by
  rw [List.countP_eq_zero]
  intro c hc hmarking
  have hover := hsettled c hc
  cases hphase : c.phase with
  | ended outcome =>
      rw [hphase] at hmarking
      cases hmarking
  | _ =>
      rw [hphase] at hover
      cases hover

theorem setPhase (h : PilotInv s) (hi : s.calls[i]? = some c) {phase : PilotPhase}
    (hbefore : c.phase.isMarking = false) (hafter : phase.isMarking = false)
    (hphase : s.CallInv { c with phase := phase }) : PilotInv (s.setPhase i c phase) where
  calls := by
    apply forall_mem_set
    · exact h.calls
    · exact hphase
  balance := by
    have hcount : (s.calls.set i { c with phase := phase }).countP
        (fun c => c.phase.isMarking) = s.calls.countP fun c => c.phase.isMarking :=
      countP_set_of_eq hi (hafter.trans hbefore.symm)
    exact (congrArg _ hcount).trans h.balance
  tenanted := h.tenanted
  linked := h.linked

theorem registered (h : PilotInv s) (hi : s.calls[i]? = some c)
    {plan email name tenantId : String} (hphase : c.phase = .registering plan email name tenantId)
    {accounts : Accounts} (hregistered : s.accounts.createRegistration
      (registration env c.draws email name tenantId) = some accounts) :
    PilotInv ({ s with accounts := accounts }.setPhase i c
      (.marking plan tenantId c.draws.userId)) := by
  have hc := h.calls c (List.mem_of_getElem? hi)
  rw [CallInv, hphase] at hc
  have hbefore : c.phase.isMarking = false := by rw [hphase]; rfl
  obtain ⟨htaken, htenants, husers⟩ := Accounts.createRegistration_eq_some hregistered
  replace htaken : s.accounts.taken s.request.email = false := hc.2 ▸ htaken
  have hmem : ∀ user, user ∈ accounts.users.rows ↔ user ∈ s.accounts.users.rows ∨
      user = (registration env c.draws email name tenantId).user :=
    fun user => Table.mem_insert husers
  have howns : ∃ user ∈ accounts.users.rows,
      user.email = s.request.email ∧ user.tenantId = tenantId :=
    ⟨_, (hmem _).mpr (.inr rfl), hc.2, rfl⟩
  have hnew : accounts.taken s.request.email = true := by
    obtain ⟨user, huser, hemail, -⟩ := howns
    exact taken_iff.mpr ⟨user, huser, hemail⟩
  have hnotApproved : s.request.status ≠ .approved := by
    intro happroved
    have hbalance := h.balance
    rw [if_pos happroved, htaken, if_neg Bool.false_ne_true] at hbalance
    omega
  have hframe : ∀ x, s.CallInv x → ({ s with accounts := accounts } : PilotDesk).CallInv x := by
    intro x hx
    refine hx.frame rfl ?_ id
    intro tenantId' howned
    obtain ⟨user, huser, hrest⟩ := howned
    exact ⟨user, (hmem user).mpr (.inl huser), hrest⟩
  exact {
    calls := by
      apply forall_mem_set
      · exact fun x hx => hframe x (h.calls x hx)
      · exact ⟨hc.1, howns⟩
    balance := by
      have hcount : (s.calls.set i { c with phase := .marking plan tenantId c.draws.userId }).countP
          (fun c => c.phase.isMarking) = s.calls.countP (fun c => c.phase.isMarking) + 1 :=
        countP_set_of_new hi hbefore rfl
      have hbalance := h.balance
      rw [htaken, if_neg Bool.false_ne_true, if_neg hnotApproved] at hbalance
      rw [PilotDesk.setPhase, hcount, hnew, if_pos rfl, if_neg hnotApproved]
      omega
    tenanted := by
      intro user huser hemail
      have hrow := Table.row?_insert htenants user.tenantId
      change (accounts.tenants.row? user.tenantId).isSome = true
      rw [hrow]
      by_cases hself : (registration env c.draws email name tenantId).tenant.id = user.tenantId
      · rw [if_pos hself]
        rfl
      · rw [if_neg hself]
        cases (hmem user).mp huser with
        | inl hold => exact h.tenanted user hold hemail
        | inr hself' => exact absurd (hself' ▸ rfl) hself
    linked := fun happroved => absurd happroved hnotApproved }

theorem register (h : PilotInv s) (hi : s.calls[i]? = some c) {plan email name tenantId : String}
    (hphase : c.phase = .registering plan email name tenantId) :
    PilotInv (s.register env i c plan email name tenantId) := by
  cases hregistered : s.accounts.createRegistration
      (registration env c.draws email name tenantId) with
  | none =>
      rw [PilotDesk.register, hregistered]
      exact h.setPhase hi (by rw [hphase]; rfl) rfl trivial
  | some accounts =>
      rw [register_of_some hregistered]
      exact h.registered hi hphase hregistered

theorem mark (h : PilotInv s) (hi : s.calls[i]? = some c) {plan tenantId userId : String}
    (hphase : c.phase = .marking plan tenantId userId) (hpending : s.request.status = .pending)
    (now : Int) : PilotInv (s.mark i c now plan tenantId userId) := by
  have hc := h.calls c (List.mem_of_getElem? hi)
  rw [CallInv, hphase] at hc
  have hbefore : c.phase.isMarking = true := by rw [hphase]; rfl
  have hcount : (s.calls.set i { c with phase := .notifying }).countP
      (fun c => c.phase.isMarking) + 1 = s.calls.countP fun c => c.phase.isMarking :=
    countP_set_add_one hi hbefore rfl
  have husers : ∀ P : String → String → Prop,
      (∃ user ∈ (upgraded s.accounts plan tenantId userId).users.rows,
        P user.email user.tenantId) ↔
      ∃ user ∈ s.accounts.users.rows, P user.email user.tenantId :=
    fun P => exists_mem_updateWhere fun _ => Iff.rfl
  have htaken : (upgraded s.accounts plan tenantId userId).taken s.request.email =
      s.accounts.taken s.request.email := by
    rw [Bool.eq_iff_iff, taken_iff, taken_iff]
    exact husers fun email _ => email = s.request.email
  have htenants : ∀ t, ((upgraded s.accounts plan tenantId userId).tenants.row? t).isSome =
      (s.accounts.tenants.row? t).isSome := by
    intro t
    by_cases hplan : plan ≠ "developer"
    · rw [upgraded, if_pos hplan, Table.row?_update, Option.isSome_map]
    · rw [upgraded, if_neg hplan]
  have hframe : ∀ x, s.CallInv x → (s.mark i c now plan tenantId userId).CallInv x := by
    intro x hx
    refine hx.frame rfl (fun tenantId' => (husers fun email t => email = _ ∧ t = tenantId').mpr) ?_
    intro hstatus
    rw [hpending] at hstatus
    cases hdecision : x.decision with
    | approve plan =>
        rw [hdecision] at hstatus
        cases hstatus
    | reject reason =>
        rw [hdecision] at hstatus
        cases hstatus
  exact {
    calls := by
      apply forall_mem_set
      · exact fun x hx => hframe x (h.calls x hx)
      · exact hc.1.symm
    balance := by
      have hbalance := h.balance
      rw [hpending, if_neg (by decide)] at hbalance
      change (if PilotStatus.approved = .approved then 1 else 0) +
        (s.calls.set i { c with phase := .notifying }).countP (fun c => c.phase.isMarking) =
        if (upgraded s.accounts plan tenantId userId).taken s.request.email then 1 else 0
      rw [if_pos rfl, htaken]
      omega
    tenanted := by
      have hall : ∀ user ∈ (upgraded s.accounts plan tenantId userId).users.rows,
          user.email = s.request.email → (s.accounts.tenants.row? user.tenantId).isSome = true :=
        updateWhere_all (fun user huser _ => h.tenanted user huser)
          fun user huser _ => h.tenanted user huser
      intro user huser hemail
      exact (htenants user.tenantId).trans (hall user huser hemail)
    linked := fun _ => by
      obtain ⟨user, huser, hemail, htenant⟩ := hc.2
      exact (husers fun email t => email = s.request.email ∧ some tenantId = some t).mpr
        ⟨user, huser, hemail, congrArg some htenant.symm⟩ }

theorem reject (h : PilotInv s) (hi : s.calls[i]? = some c) {reason : String}
    (hphase : c.phase = .updating reason) (hnotApproved : s.request.status ≠ .approved)
    (now : Int) : PilotInv (s.reject i c now reason) := by
  have hc := h.calls c (List.mem_of_getElem? hi)
  rw [CallInv, hphase] at hc
  have hbefore : c.phase.isMarking = false := by rw [hphase]; rfl
  have hcount : (s.calls.set i { c with phase := .notifying }).countP
      (fun c => c.phase.isMarking) = s.calls.countP fun c => c.phase.isMarking :=
    countP_set_of_eq hi hbefore.symm
  have hframe : ∀ x, s.CallInv x → (s.reject i c now reason).CallInv x := by
    intro x hx
    refine hx.frame rfl (fun _ => id) ?_
    intro hstatus
    cases hdecision : x.decision with
    | approve plan =>
        rw [hdecision] at hstatus
        exact absurd hstatus hnotApproved
    | reject reason => rfl
  exact {
    calls := by
      apply forall_mem_set
      · exact fun x hx => hframe x (h.calls x hx)
      · exact hc.symm
    balance := by
      have hbalance := h.balance
      rw [if_neg hnotApproved] at hbalance
      change (if PilotStatus.rejected = .approved then 1 else 0) +
        (s.calls.set i { c with phase := .notifying }).countP (fun c => c.phase.isMarking) = _
      rw [if_neg (by decide), hcount]
      exact hbalance
    tenanted := h.tenanted
    linked := fun happroved => by cases happroved }

theorem arrive (h : PilotInv s) (hi : s.calls[i]? = some c) (hphase : c.phase = .arrived) :
    PilotInv (s.setPhase i c (admitted env s.request c.decision)) := by
  have hbefore : c.phase.isMarking = false := by rw [hphase]; rfl
  unfold admitted
  by_cases hpending : s.request.status ≠ .pending
  · rw [if_pos hpending]
    exact h.setPhase hi hbefore rfl trivial
  · rw [if_neg hpending]
    cases hdecision : c.decision with
    | reject reason =>
        refine h.setPhase hi hbefore rfl ?_
        exact congrArg PilotDecision.status hdecision
    | approve plan =>
        dsimp only
        by_cases hplan : targetPlan env s.request plan ∈ validPlans
        · rw [if_pos hplan]
          refine h.setPhase hi hbefore rfl ?_
          exact ⟨congrArg PilotDecision.status hdecision, rfl⟩
        · rw [if_neg hplan]
          exact h.setPhase hi hbefore rfl trivial

theorem proceed (h : PilotInv s) (hi : s.calls[i]? = some c) (now : Int)
    (hmark : c.phase.isMarking = true → s.request.status = .pending)
    (hreject : c.phase.isUpdating = true → s.request.status ≠ .approved) :
    PilotInv (s.proceed env i c now) := by
  have hc := h.calls c (List.mem_of_getElem? hi)
  rw [CallInv] at hc
  rw [PilotDesk.proceed]
  cases hphase : c.phase with
  | arrived => exact h.arrive hi hphase
  | naming plan email name =>
      rw [hphase] at hc
      exact h.setPhase hi (by rw [hphase]; rfl) rfl hc
  | registering plan email name tenantId => exact h.register hi hphase
  | marking plan tenantId userId => exact h.mark hi hphase (hmark (by rw [hphase]; rfl)) now
  | updating reason => exact h.reject hi hphase (hreject (by rw [hphase]; rfl)) now
  | notifying =>
      rw [hphase] at hc
      exact h.setPhase hi (by rw [hphase]; rfl) rfl hc
  | ended outcome => exact h

theorem step (h : PilotInv s) {a : PilotStep} (hguard : s.DecidesPending a) :
    PilotInv (s.step env a) := by
  cases a with
  | begin decision draws =>
      exact {
        calls := forall_mem_append_singleton h.calls trivial
        balance := by
          have hcount : (s.calls ++ [({ decision := decision, draws := draws } : PilotCall)]).countP
              (fun c => c.phase.isMarking) = s.calls.countP fun c => c.phase.isMarking :=
            countP_concat _ _ _
          exact (congrArg _ hcount).trans h.balance
        tenanted := h.tenanted
        linked := h.linked }
  | advance i now fails =>
      rw [PilotDesk.step]
      cases hi : s.calls[i]? with
      | none => exact h
      | some c =>
          obtain ⟨hmark, hreject⟩ := hguard c hi
          dsimp only
          by_cases hover : c.phase.isOver = true
          · rw [if_pos hover]
            exact h
          · rw [if_neg hover]
            cases fails with
            | true =>
                have hbefore : c.phase.isMarking = false := by
                  rw [← Bool.not_eq_true]
                  exact fun hmarking => Bool.noConfusion (hmark hmarking).1
                exact h.setPhase hi hbefore rfl trivial
            | false =>
                apply h.proceed hi now
                · exact fun hmarking => (hmark hmarking).2
                · exact fun hupdating => (hreject hupdating).resolve_left Bool.false_ne_true

theorem opened {accounts : Accounts} {id email name planInterest : String}
    (hfree : accounts.taken email = false) :
    PilotInv (opened accounts id email name planInterest) where
  calls c hc := by cases hc
  balance := by
    change 0 + 0 = if accounts.taken email then 1 else 0
    rw [hfree]
    rfl
  tenanted user huser hemail := by
    have htaken : accounts.taken email = true := taken_iff.mpr ⟨user, huser, hemail⟩
    exact Bool.noConfusion (htaken.symm.trans hfree)
  linked happroved := by cases happroved

theorem provisioned_iff (h : PilotInv s) (hsettled : s.Settled) :
    s.Provisioned ↔ s.request.status = .approved := by
  rw [h.approved_iff_taken (countP_marking hsettled), taken_iff]
  constructor
  · intro hprovisioned
    obtain ⟨user, huser, hemail, -⟩ := hprovisioned
    exact ⟨user, huser, hemail⟩
  · intro htaken
    obtain ⟨user, huser, hemail⟩ := htaken
    exact ⟨user, huser, hemail, h.tenanted user huser hemail⟩

end PilotInv

section Alone
variable {draws : Draws} {now : Int} {phase : PilotPhase}

/-- One more call. -/
def withCall (s : PilotDesk) (c : PilotCall) : PilotDesk := { s with calls := s.calls ++ [c] }

theorem setPhase_withCall (s : PilotDesk) (c : PilotCall) (phase : PilotPhase) :
    (s.withCall c).setPhase s.calls.length c phase = s.withCall { c with phase := phase } := by
  rw [setPhase, withCall, List.set_append_right _ _ (Nat.le_refl _), Nat.sub_self]
  rfl

theorem step_withCall (env : PilotEnv) (s : PilotDesk) (c : PilotCall) (now : Int)
    (hover : c.phase.isOver = false) :
    (s.withCall c).step env (.advance s.calls.length now false) =
      (s.withCall c).proceed env s.calls.length c now := by
  have hlast : (s.withCall c).calls[s.calls.length]? = some c := List.getElem?_concat_length
  rw [step, hlast]
  simp [hover]

theorem step_withCall_over (env : PilotEnv) (s : PilotDesk) (c : PilotCall) (now : Int)
    (hover : c.phase.isOver = true) :
    (s.withCall c).step env (.advance s.calls.length now false) = s.withCall c := by
  have hlast : (s.withCall c).calls[s.calls.length]? = some c := List.getElem?_concat_length
  rw [step, hlast]
  simp [hover]

theorem settled_withCall (hsettled : s.Settled) (hover : c.phase.isOver = true) :
    (s.withCall c).Settled :=
  forall_mem_append_singleton hsettled hover

theorem reject_alone (hsettled : s.Settled) (hpending : s.request.status = .pending)
    (reason : String) (draws : Draws) (now : Int) :
    (exec (step env) s (s.alone (.reject reason) draws now)).Settled ∧
      (exec (step env) s (s.alone (.reject reason) draws now)).request.status = .rejected := by
  let c : PilotCall := { decision := .reject reason, draws := draws }
  let t : PilotDesk :=
    { s with
      request :=
        { s.request with
          status := .rejected
          rejectedAt := some now
          rejectionReason := some reason } }
  have hadmitted : admitted env s.request c.decision = .updating reason := by
    simp [admitted, hpending, c]
  have hread : (s.withCall c).step env (.advance s.calls.length now false) =
      s.withCall { c with phase := .updating reason } := by
    rw [step_withCall env s c now rfl, ← hadmitted]
    exact setPhase_withCall s c _
  have hupdate : (s.withCall { c with phase := .updating reason }).step env
      (.advance s.calls.length now false) = t.withCall { c with phase := .notifying } :=
    (step_withCall env s _ now rfl).trans (setPhase_withCall t _ _)
  have hnotify : (t.withCall { c with phase := .notifying }).step env
      (.advance s.calls.length now false) = t.withCall { c with phase := .ended .succeeded } :=
    (step_withCall env t _ now rfl).trans (setPhase_withCall t _ _)
  have hstay : (t.withCall { c with phase := .ended .succeeded }).step env
      (.advance s.calls.length now false) = t.withCall { c with phase := .ended .succeeded } :=
    step_withCall_over env t _ now rfl
  have hexec : exec (step env) s (s.alone (.reject reason) draws now) =
      t.withCall { c with phase := .ended .succeeded } := by
    change exec (step env) (s.withCall c) (List.replicate 5 (.advance s.calls.length now false)) = _
    simp only [List.replicate, exec_cons, exec_nil, hread, hupdate, hnotify, hstay]
  rw [hexec]
  exact ⟨settled_withCall hsettled rfl, rfl⟩

theorem registration_isSome (env : PilotEnv) {accounts : Accounts} {draws : Draws}
    {email tenantId : String} (name : String) (hfree : accounts.taken email = false)
    (htenant : accounts.tenants.row? tenantId = none)
    (hproject : accounts.projects.row? draws.projectId = none)
    (huser : accounts.users.row? draws.userId = none) :
    (accounts.createRegistration (registration env draws email name tenantId)).isSome :=
  accounts.createRegistration_isSome hfree htenant hproject huser rfl

theorem approve_alone (hsettled : s.Settled) (hpending : s.request.status = .pending)
    (hfree : s.accounts.taken s.request.email = false) {plan : Option String} {draws : Draws}
    (hadmissible : s.Admissible env (.approve plan) draws) (now : Int) :
    (exec (step env) s (s.alone (.approve plan) draws now)).Settled ∧
      (exec (step env) s (s.alone (.approve plan) draws now)).request.status = .approved := by
  obtain ⟨hplan, htenant, hproject, huser⟩ := hadmissible
  let c : PilotCall := { decision := .approve plan, draws := draws }
  let target := targetPlan env s.request plan
  let slug := makeTenantSlug env.lower s.accounts.tenants (emailPrefix s.request.email)
    draws.slugUuid
  obtain ⟨accounts, haccounts⟩ := Option.isSome_iff_exists.mp
    (registration_isSome env s.request.name hfree htenant hproject huser)
  let t : PilotDesk := { s with accounts := accounts }
  let t' : PilotDesk :=
    { s with
      accounts := upgraded accounts target slug draws.userId
      request :=
        { s.request with
          status := .approved
          approvedAt := some now
          tenantId := some slug } }
  have hadmitted : admitted env s.request c.decision =
      .naming target s.request.email s.request.name := by
    simp [admitted, hpending, c, target, hplan]
  have hread : (s.withCall c).step env (.advance s.calls.length now false) =
      s.withCall { c with phase := .naming target s.request.email s.request.name } := by
    rw [step_withCall env s c now rfl, ← hadmitted]
    exact setPhase_withCall s c _
  have hname : (s.withCall { c with phase := .naming target s.request.email s.request.name }).step
      env (.advance s.calls.length now false) =
      s.withCall { c with phase := .registering target s.request.email s.request.name slug } :=
    (step_withCall env s _ now rfl).trans (setPhase_withCall s _ _)
  have hregister : (s.withCall { c with
        phase := .registering target s.request.email s.request.name slug }).step env
      (.advance s.calls.length now false) =
      t.withCall { c with phase := .marking target slug draws.userId } := by
    rw [step_withCall env s _ now rfl]
    exact (register_of_some haccounts).trans (setPhase_withCall t _ _)
  have hmark : (t.withCall { c with phase := .marking target slug draws.userId }).step env
      (.advance s.calls.length now false) = t'.withCall { c with phase := .notifying } :=
    (step_withCall env t _ now rfl).trans (setPhase_withCall t' _ _)
  have hnotify : (t'.withCall { c with phase := .notifying }).step env
      (.advance s.calls.length now false) = t'.withCall { c with phase := .ended .succeeded } :=
    (step_withCall env t' _ now rfl).trans (setPhase_withCall t' _ _)
  have hexec : exec (step env) s (s.alone (.approve plan) draws now) =
      t'.withCall { c with phase := .ended .succeeded } := by
    change exec (step env) (s.withCall c) (List.replicate 5 (.advance s.calls.length now false)) = _
    simp only [List.replicate, exec_cons, exec_nil, hread, hname, hregister, hmark, hnotify]
  rw [hexec]
  exact ⟨settled_withCall hsettled rfl, rfl⟩

end Alone

theorem PilotInv.atomicDecision (h : PilotInv s) : s.AtomicDecision env where
  provisioned_iff := h.provisioned_iff
  linked _ := h.linked
  outcome c hc hphase := by
    have hcall := h.calls c hc
    rw [CallInv, hphase] at hcall
    exact hcall
  retriable hsettled hpending decision draws now hadmissible := by
    cases decision with
    | reject reason => exact reject_alone hsettled hpending reason draws now
    | approve plan =>
        have hfree : s.accounts.taken s.request.email = false := by
          rw [← Bool.not_eq_true, ← h.approved_iff_taken (PilotInv.countP_marking hsettled),
            hpending]
          exact fun happroved => by cases happroved
        exact approve_alone hsettled hpending hfree hadmissible now

end PilotDesk

open PilotDesk in
/-- While an approval that has registered marks a request that is still pending, and no
rejection meets an approved request, the decisions are atomic. -/
theorem decisions_atomic (env : PilotEnv) (accounts : Accounts)
    (id email name planInterest : String) (run : List PilotStep)
    (hfree : accounts.taken email = false)
    (h : AllSteps (step env) DecidesPending (opened accounts id email name planInterest) run) :
    Always (step env) (AtomicDecision env) (opened accounts id email name planInterest) run :=
  (always_of_allSteps (P := PilotInv) (fun _ _ hs hguard => hs.step hguard)
    (PilotInv.opened hfree) h).mono fun _ hs => hs.atomicDecision

section Sample

def samplePilotEnv : PilotEnv where
  lower := id
  hashPassword := id

def noAccounts : Accounts where
  tenants := ⟨[], List.nodup_nil⟩
  projects := ⟨[], List.nodup_nil⟩
  users := ⟨[], List.nodup_nil⟩
  apiKeys := ⟨[], List.nodup_nil⟩

def onePilot : PilotDesk :=
  PilotDesk.opened noAccounts "request-1" "ada@example.com" "Ada" "team"

def someDraws : Draws := ⟨"one-time", "0123456789abcdef", "project-1", "user-1"⟩

/-- An approval whose registration fails, another one up to its end, and a rejection that
finds the request approved. -/
def approveOnce : List PilotStep :=
  [.begin (.approve none) someDraws, .advance 0 100 false, .advance 0 100 false,
    .advance 0 100 true, .begin (.approve (some "pro")) someDraws] ++
    List.replicate 3 (.advance 1 200 false) ++ [.begin (.reject "late") someDraws] ++
    List.replicate 2 (.advance 1 300 false) ++ [.advance 2 400 false]

theorem decisions_atomic_approveOnce :
    Always (PilotDesk.step samplePilotEnv) (PilotDesk.AtomicDecision samplePilotEnv) onePilot
      approveOnce :=
  decisions_atomic samplePilotEnv noAccounts "request-1" "ada@example.com" "Ada" "team"
    approveOnce rfl (by decide +kernel)

/-- The registration is committed, and the transaction that marks the request fails. -/
def approveHalf : List PilotStep :=
  .begin (.approve none) someDraws ::
    [.advance 0 100 false, .advance 0 100 false, .advance 0 100 false, .advance 0 100 true]

/-- The request stays pending with a tenant and a user. -/
theorem registered_and_pending :
    ¬ Always (PilotDesk.step samplePilotEnv) (PilotDesk.AtomicDecision samplePilotEnv) onePilot
      approveHalf := by
  apply not_always_of_last
  intro h
  have hsettled : (exec (PilotDesk.step samplePilotEnv) onePilot approveHalf).Settled := by
    unfold PilotDesk.Settled
    decide +kernel
  have hprovisioned :
      (exec (PilotDesk.step samplePilotEnv) onePilot approveHalf).Provisioned := by
    unfold PilotDesk.Provisioned
    decide +kernel
  have happroved := (h.provisioned_iff hsettled).mp hprovisioned
  revert happroved
  decide +kernel

end Sample

end Engramia.Pilots
