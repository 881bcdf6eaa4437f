import Engramia.Library.Ledger
import Engramia.Library.PartialIndex
import Engramia.Pilots.Decision
import Mathlib.Data.List.Sort

/-!
The waitlist between those who ask for access and those who decide. A submission inserts its row
unless the address has an active one, and looks that one up in a second statement; the e-mails come
after the commit. A decision reads the row and writes it later, without a guard, and an account's
erasure takes rows out. The index on the active rows is what the statements meet in.

What registers the account of an approval is outside of this module, and so is the validation of
the posted fields.
-/
namespace Engramia.Pilots
open Engramia.Library

/-- `WaitlistRequestBody`, validated. -/
structure WaitlistRequestBody where
  email : String
  name : String
  planInterest : String
  country : String
  useCase : Option String
  companyName : Option String
  referralSource : Option String
deriving DecidableEq

structure WaitlistRow extends PilotRequest where
  country : String
  useCase : Option String
  companyName : Option String
  referralSource : Option String
  createdAt : Int

abbrev WaitlistTable := Table fun r : WaitlistRow => r.id

/-- What a submission has got to. With its insert done, the row's id and time. -/
inductive SubmissionPhase where
  | selecting
  | acknowledging (requestId : String) (createdAt : Int)
  | notifying (requestId : String) (createdAt : Int)
  | answered (inserted : Bool) (requestId : String) (createdAt : Int)
  /-- The status 500. -/
  | failed

structure Submission where
  body : WaitlistRequestBody
  phase : SubmissionPhase

inductive Mail where
  | ack (recipient name planInterest : String)
  | pilotAck (recipient name segment : String)
  | notify (requestId : String) (body : WaitlistRequestBody)

inductive DecisionPhase where
  | reading
  | registering
  | marking (tenantId : String)
  | updating (reason : String)
  | ended

structure Decision where
  decision : PilotDecision
  requestId : String
  phase : DecisionPhase

structure Waitlist where
  rows : WaitlistTable
  submissions : List Submission
  mails : List Mail
  decisions : List Decision

inductive WaitlistStep where
  | submit (body : WaitlistRequestBody) (newId : String) (now : Int)
  | proceed (submission : ℕ)
  | decide (decision : PilotDecision) (requestId : String)
  /-- The next statement of a decision, with the tenant of the account where one is registered.
  Where it fails the decision ends. -/
  | advance (decision : ℕ) (now : Int) (registered : Option String) (fails : Bool)
  | erase (email tenantId : String)

section Definitions

/-- `uq_waitlist_active` -/
def uqWaitlistActive : PartialIndex WaitlistRow String where
  covers r := r.status = .pending ∨ r.status = .approved
  column r := r.email

def WaitlistRequestBody.row (body : WaitlistRequestBody) (newId : String) (now : Int) :
    WaitlistRow where
  id := newId
  email := body.email
  name := body.name
  planInterest := body.planInterest
  status := .pending
  rejectionReason := none
  tenantId := none
  approvedAt := none
  rejectedAt := none
  country := body.country
  useCase := body.useCase
  companyName := body.companyName
  referralSource := body.referralSource
  createdAt := now

/-- What follows `pilot-` in the referral source. -/
def pilotSegment (body : WaitlistRequestBody) : Option String :=
  body.referralSource.bind fun source =>
    if "pilot-".toList.isPrefixOf source.toList then some (String.ofList (source.toList.drop 6))
    else none

def ackMail (body : WaitlistRequestBody) : Mail :=
  match pilotSegment body with
  | some segment => .pilotAck body.email body.name segment
  | none => .ack body.email body.name body.planInterest

def WaitlistRow.approve (tenantId : String) (now : Int) (r : WaitlistRow) : WaitlistRow :=
  { r with status := .approved, approvedAt := some now, tenantId := some tenantId }

def WaitlistRow.reject (reason : String) (now : Int) (r : WaitlistRow) : WaitlistRow :=
  { r with status := .rejected, rejectedAt := some now, rejectionReason := some reason }

theorem WaitlistRow.approve_id (tenantId : String) (now : Int) (r : WaitlistRow) :
    (r.approve tenantId now).id = r.id := rfl

theorem WaitlistRow.reject_id (reason : String) (now : Int) (r : WaitlistRow) :
    (r.reject reason now).id = r.id := rfl

namespace Waitlist
variable (s : Waitlist)

def active? (email : String) : Option WaitlistRow := uqWaitlistActive.entryAt? s.rows email

/-- `… ORDER BY created_at ASC LIMIT 1` -/
def oldestActive (email : String) : Option WaitlistRow :=
  ((s.rows.rows.filter (uqWaitlistActive.holds email)).insertionSort
    fun a b => a.createdAt ≤ b.createdAt).head?

def setPhase (i : ℕ) (sub : Submission) (phase : SubmissionPhase) : Waitlist :=
  { s with submissions := s.submissions.set i { sub with phase := phase } }

def setDecision (i : ℕ) (d : Decision) (phase : DecisionPhase) : Waitlist :=
  { s with decisions := s.decisions.set i { d with phase := phase } }

def submit (body : WaitlistRequestBody) (newId : String) (now : Int) : Waitlist :=
  if (s.active? body.email).isSome then
    { s with submissions := s.submissions ++ [⟨body, .selecting⟩] }
  else
    match s.rows.insert (body.row newId now) with
    | none => { s with submissions := s.submissions ++ [⟨body, .failed⟩] }
    | some rows =>
        { s with
          rows := rows
          submissions := s.submissions ++ [⟨body, .acknowledging newId now⟩] }

def proceed (i : ℕ) (sub : Submission) : Waitlist :=
  match sub.phase with
  | .selecting =>
      match s.oldestActive sub.body.email with
      | none => s.setPhase i sub .failed
      | some r => s.setPhase i sub (.answered false r.id r.createdAt)
  | .acknowledging requestId createdAt =>
      { s with mails := s.mails ++ [ackMail sub.body] }.setPhase i sub
        (.notifying requestId createdAt)
  | .notifying requestId createdAt =>
      { s with mails := s.mails ++ [Mail.notify requestId sub.body] }.setPhase i sub
        (.answered true requestId createdAt)
  | .answered _ _ _ | .failed => s

/-- The next statement of a decision, over the API or the command line. -/
def advance (env : PilotEnv) (i : ℕ) (d : Decision) (now : Int) (registered : Option String) :
    Waitlist :=
  match d.phase with
  | .reading =>
      match s.rows.row? d.requestId with
      | none => s.setDecision i d .ended
      | some r =>
          if r.status ≠ .pending then s.setDecision i d .ended
          else
            match d.decision with
            | .approve plan =>
                if targetPlan env r.toPilotRequest plan ∈ validPlans then
                  s.setDecision i d .registering
                else s.setDecision i d .ended
            | .reject reason => s.setDecision i d (.updating reason)
  | .registering =>
      match registered with
      | none => s.setDecision i d .ended
      | some tenantId => s.setDecision i d (.marking tenantId)
  | .marking tenantId =>
      match uqWaitlistActive.updateRow s.rows d.requestId (WaitlistRow.approve tenantId now)
          (WaitlistRow.approve_id tenantId now) with
      | none => s.setDecision i d .ended
      | some rows => { s with rows := rows }.setDecision i d .ended
  | .updating reason =>
      match uqWaitlistActive.updateRow s.rows d.requestId (WaitlistRow.reject reason now)
          (WaitlistRow.reject_id reason now) with
      | none => s.setDecision i d .ended
      | some rows => { s with rows := rows }.setDecision i d .ended
  | .ended => s

/-- The rows that go with an account. -/
def belongs (email tenantId : String) (r : WaitlistRow) : Bool :=
  r.email = email ∨ r.tenantId = some tenantId

def step (env : PilotEnv) (s : Waitlist) : WaitlistStep → Waitlist
  | .submit body newId now => s.submit body newId now
  | .proceed i =>
      match s.submissions[i]? with
      | none => s
      | some sub => s.proceed i sub
  | .decide decision requestId =>
      { s with decisions := s.decisions ++ [⟨decision, requestId, .reading⟩] }
  | .advance i now registered fails =>
      match s.decisions[i]? with
      | none => s
      | some d =>
          if fails then s.setDecision i d .ended else s.advance env i d now registered
  | .erase email tenantId => { s with rows := s.rows.delete (belongs email tenantId) }

end Waitlist

def emptyWaitlist : Waitlist where
  rows := ⟨[], List.nodup_nil⟩
  submissions := []
  mails := []
  decisions := []

/-- The submission has inserted its row. -/
def SubmissionPhase.inserted : SubmissionPhase → Bool
  | .acknowledging _ _ | .notifying _ _ => true
  | .answered inserted _ _ => inserted
  | .selecting | .failed => false

/-- Its acknowledgement has been sent, as far as it goes. -/
def SubmissionPhase.acknowledged : SubmissionPhase → Bool
  | .notifying _ _ => true
  | .answered inserted _ _ => inserted
  | .selecting | .acknowledging _ _ | .failed => false

def SubmissionPhase.notified : SubmissionPhase → Bool
  | .answered inserted _ _ => inserted
  | .selecting | .acknowledging _ _ | .notifying _ _ | .failed => false

def Mail.acknowledges (email : String) : Mail → Bool
  | .ack recipient _ _ | .pilotAck recipient _ _ => recipient = email
  | .notify _ _ => false

def Mail.notifiesOf (email : String) : Mail → Bool
  | .notify _ body => body.email = email
  | .ack _ _ _ | .pilotAck _ _ _ => false

def DecisionPhase.isMarking : DecisionPhase → Bool
  | .marking _ => true
  | _ => false

def DecisionPhase.isUpdating : DecisionPhase → Bool
  | .updating _ => true
  | _ => false

namespace Waitlist
variable (s : Waitlist)

/-- How many submissions of an address are so far. -/
def count (email : String) (reached : SubmissionPhase → Bool) : ℕ :=
  s.submissions.countP fun sub => decide (sub.body.email = email) && reached sub.phase

def activeCount (email : String) : ℕ := (s.active? email).isSome.toNat

/-- The step inserts a row for the address. -/
def inserts (email : String) : WaitlistStep → Bool
  | .submit body newId _ =>
      body.email = email && (s.active? email).isNone && (s.rows.row? newId).isNone
  | _ => false

/-- The step turns down or erases the active row of the address. -/
def turnsAway (email : String) : WaitlistStep → Bool
  | .advance i _ _ false => (s.decisions[i]?).any fun d =>
      d.phase.isUpdating && (s.active? email).any fun r => r.id = d.requestId
  | .erase email' tenantId => (s.active? email).any (belongs email' tenantId)
  | _ => false

/-- The step approves a row of the address that has been turned down. -/
def readmits (email : String) : WaitlistStep → Bool
  | .advance i _ _ false => (s.decisions[i]?).any fun d =>
      d.phase.isMarking && (s.active? email).isNone &&
        (s.rows.row? d.requestId).any fun r => r.email = email ∧ r.status = .rejected
  | _ => false

end Waitlist

end Definitions

namespace Waitlist

section Statements
variable {env : PilotEnv} {s : Waitlist} {email : String} {i : ℕ} {d : Decision}
  {rows : WaitlistTable}

theorem covers_iff {r : WaitlistRow} :
    uqWaitlistActive.covers r = true ↔ r.status = .pending ∨ r.status = .approved := by
  rw [uqWaitlistActive, decide_eq_true_iff]

theorem covers_approve (tenantId : String) (now : Int) (r : WaitlistRow) :
    uqWaitlistActive.covers (r.approve tenantId now) = true := rfl

theorem covers_reject (reason : String) (now : Int) (r : WaitlistRow) :
    uqWaitlistActive.covers (r.reject reason now) = false := rfl

theorem not_covers_iff {r : WaitlistRow} :
    uqWaitlistActive.covers r = false ↔ r.status = .rejected := by
  rw [← Bool.not_eq_true, covers_iff]
  cases r.status <;> simp

theorem oldestActive_eq (h : uqWaitlistActive.Unique s.rows) (email : String) :
    s.oldestActive email = s.active? email := by
  rw [oldestActive, PartialIndex.filter_holds h, active?]
  cases uqWaitlistActive.entryAt? s.rows email <;> rfl

/-- What a submission, a decision or an erasure does to the active row of an address. -/
theorem active?_submit (h : uqWaitlistActive.Unique s.rows) (body : WaitlistRequestBody)
    (newId : String) (now : Int) (email : String) :
    (s.submit body newId now).active? email =
      if s.inserts email (.submit body newId now) then some (body.row newId now)
      else s.active? email := by
  rw [submit]
  cases hactive : s.active? body.email with
  | some r =>
      have hnot : s.inserts email (.submit body newId now) = false := by
        rw [inserts, ← Bool.not_eq_true]
        intro hinserts
        simp only [Bool.and_eq_true, decide_eq_true_iff] at hinserts
        rw [← hinserts.1.1, hactive] at hinserts
        cases hinserts.1.2
      rw [if_pos Option.isSome_some, hnot]
      rfl
  | none =>
      simp only [Option.isSome_none, Bool.false_eq_true, if_false]
      cases hrow : s.rows.row? newId with
      | some r =>
          have hfail : s.rows.insert (body.row newId now) = none := Table.insert_eq_none hrow
          simp [hfail, inserts, hrow, active?]
      | none =>
          obtain ⟨rows, hrows⟩ := Table.exists_insert (r := body.row newId now) hrow
          rw [hrows]
          refine (PartialIndex.entryAt?_insert (r := body.row newId now) h hactive hrows
            email).trans ?_
          by_cases hemail : body.email = email
          · have hholds : uqWaitlistActive.holds email (body.row newId now) = true :=
              PartialIndex.holds_iff.mpr ⟨rfl, hemail⟩
            rw [if_pos hholds, if_pos]
            rw [← hemail]
            simp [inserts, hactive, hrow]
          · have hholds : ¬ uqWaitlistActive.holds email (body.row newId now) = true :=
              fun hholds => hemail (PartialIndex.holds_iff.mp hholds).2
            rw [if_neg hholds, if_neg]
            · rfl
            · simp [inserts, hemail]

theorem active?_mark (h : uqWaitlistActive.Unique s.rows) {requestId tenantId : String} {now : Int}
    (hmark : uqWaitlistActive.updateRow s.rows requestId (WaitlistRow.approve tenantId now)
      (WaitlistRow.approve_id tenantId now) = some rows) (email : String) :
    uqWaitlistActive.entryAt? rows email =
      if (s.rows.row? requestId).any (fun r => r.email = email) then
        (s.rows.row? requestId).map (WaitlistRow.approve tenantId now)
      else s.active? email := by
  refine (PartialIndex.entryAt?_updateRow h hmark email).trans ?_
  have hholds : ∀ r : WaitlistRow,
      uqWaitlistActive.holds email (r.approve tenantId now) = decide (r.email = email) := by
    intro r
    rw [Bool.eq_iff_iff, PartialIndex.holds_iff, decide_eq_true_iff]
    exact and_iff_right rfl
  simp only [hholds]
  split
  case isTrue => rfl
  case isFalse hnone =>
      rw [← active?]
      cases hr : s.active? email with
      | none => rfl
      | some r =>
          obtain ⟨hmem, _, hemail⟩ := (PartialIndex.entryAt?_eq_some h).mp hr
          have hid : r.id ≠ requestId := by
            intro hid
            apply hnone
            rw [Table.row?_eq_some.mpr ⟨hmem, hid⟩, Option.any_some]
            exact decide_eq_true hemail
          simp [hid]

theorem active?_reject (h : uqWaitlistActive.Unique s.rows) {requestId reason : String} {now : Int}
    (hreject : uqWaitlistActive.updateRow s.rows requestId (WaitlistRow.reject reason now)
      (WaitlistRow.reject_id reason now) = some rows) (email : String) :
    uqWaitlistActive.entryAt? rows email = (s.active? email).filter fun r => r.id ≠ requestId := by
  refine (PartialIndex.entryAt?_updateRow h hreject email).trans (if_neg ?_)
  intro hany
  obtain ⟨r, _, hholds⟩ := (Option.any_eq_true _ _).mp hany
  have hcovers := (PartialIndex.holds_iff.mp hholds).1
  rw [covers_reject] at hcovers
  cases hcovers

theorem reject_goes (rows : WaitlistTable) (requestId reason : String) (now : Int) :
    ∃ rows', uqWaitlistActive.updateRow rows requestId (WaitlistRow.reject reason now)
      (WaitlistRow.reject_id reason now) = some rows' := by
  rw [← Option.ne_none_iff_exists']
  intro hnone
  obtain ⟨r, _, hclash⟩ := PartialIndex.updateRow_eq_none.mp hnone
  have hcovers := (PartialIndex.clashes_iff.mp hclash).1
  rw [covers_reject] at hcovers
  cases hcovers

/-- An approval is marked unless its row has been turned down and the address has another one. -/
theorem mark_fails_iff (h : uqWaitlistActive.Unique s.rows) (requestId tenantId : String)
    (now : Int) :
    uqWaitlistActive.updateRow s.rows requestId (WaitlistRow.approve tenantId now)
        (WaitlistRow.approve_id tenantId now) = none ↔
      ∃ r, s.rows.row? requestId = some r ∧ r.status = .rejected ∧
        (s.active? r.email).isSome = true := by
  rw [PartialIndex.updateRow_eq_none]
  apply exists_congr
  intro r
  rw [and_congr_right_iff]
  intro hr
  obtain ⟨hmem, hid⟩ := Table.row?_eq_some.mp hr
  rw [PartialIndex.clashes_iff, Option.isSome_iff_exists]
  constructor
  · intro hclash
    obtain ⟨_, x, hx, hne, hcovers, hemail⟩ := hclash
    refine ⟨?_, x, (PartialIndex.entryAt?_eq_some h).mpr ⟨hx, hcovers, hemail⟩⟩
    rw [← not_covers_iff, ← Bool.not_eq_true]
    intro hown
    have hsame := h r hmem x hx hown (PartialIndex.holds_iff.mpr ⟨hcovers, hemail⟩)
    have hkey : x.id = r.id := by rw [hsame]
    exact hne hkey
  · intro hother
    obtain ⟨hrejected, x, hx⟩ := hother
    obtain ⟨hxmem, hcovers, hemail⟩ := (PartialIndex.entryAt?_eq_some h).mp hx
    refine ⟨rfl, x, hxmem, ?_, hcovers, hemail⟩
    intro hsame
    have hxr : x = r := List.inj_on_of_nodup_map s.rows.unique hxmem hmem hsame
    rw [hxr, not_covers_iff.mpr hrejected] at hcovers
    cases hcovers

end Statements

section Balance
variable (env : PilotEnv) {s : Waitlist} (email : String)

theorem active?_congr {s' : Waitlist} (h : s'.rows = s.rows) (email : String) :
    s'.active? email = s.active? email := by
  rw [active?, active?, h]

theorem proceed_rows (s : Waitlist) (i : ℕ) (sub : Submission) :
    (s.proceed i sub).rows = s.rows := by
  rw [proceed]
  cases sub.phase with
  | selecting => cases s.oldestActive sub.body.email <;> rfl
  | acknowledging _ _ => rfl
  | notifying _ _ => rfl
  | answered _ _ _ => rfl
  | failed => rfl

/-- What the decision's next statement does to the number of active rows of an address. -/
theorem activeCount_advance (h : uqWaitlistActive.Unique s.rows) {i : ℕ} {d : Decision}
    (hd : s.decisions[i]? = some d) (now : Int) (registered : Option String) :
    (s.advance env i d now registered).activeCount email +
        (s.turnsAway email (.advance i now registered false)).toNat =
      s.activeCount email + (s.readmits email (.advance i now registered false)).toNat := by
  have hturns : s.turnsAway email (.advance i now registered false) =
      (d.phase.isUpdating && (s.active? email).any fun r => r.id = d.requestId) := by
    simp [turnsAway, hd]
  have hreadmits : s.readmits email (.advance i now registered false) =
      (d.phase.isMarking && (s.active? email).isNone &&
        (s.rows.row? d.requestId).any fun r => r.email = email ∧ r.status = .rejected) := by
    simp only [readmits, hd, Option.any_some]
  rw [hturns, hreadmits]
  cases hphase : d.phase with
  | reading =>
      simp only [advance, hphase, DecisionPhase.isUpdating, DecisionPhase.isMarking, Bool.false_and]
      split
      case h_1 => rfl
      case h_2 r hr =>
          split
          case isTrue => rfl
          case isFalse =>
              split
              case h_1 => split <;> rfl
              case h_2 => rfl
  | registering =>
      simp only [advance, hphase]
      cases registered <;> rfl
  | ended =>
      simp only [advance, hphase]
      rfl
  | marking tenantId =>
      simp only [advance, hphase, DecisionPhase.isUpdating, DecisionPhase.isMarking, Bool.false_and,
        Bool.true_and, Bool.toNat_false, Nat.add_zero]
      split
      case h_1 hfails =>
          obtain ⟨r, hr, _, hactive⟩ := (mark_fails_iff h d.requestId tenantId now).mp hfails
          have hnot : ((s.active? email).isNone && (s.rows.row? d.requestId).any fun r =>
              r.email = email ∧ r.status = .rejected) = false := by
            rw [hr, Option.any_some, ← Bool.not_eq_true, Bool.and_eq_true, decide_eq_true_iff]
            intro hreadmits
            rw [hreadmits.2.1] at hactive
            rw [Option.isNone_iff_eq_none.mp hreadmits.1] at hactive
            cases hactive
          rw [hnot]
          rfl
      case h_2 rows hrows =>
          have hafter := active?_mark h hrows email
          rw [activeCount, activeCount, active?]
          change (uqWaitlistActive.entryAt? rows email).isSome.toNat = _
          rw [hafter]
          cases hrow : s.rows.row? d.requestId with
          | none => simp
          | some r =>
              by_cases hemail : r.email = email
              · simp only [Option.any_some, Option.map_some, hemail, decide_true, if_true,
                  Option.isSome_some, true_and]
                cases hactive : s.active? email with
                | some x => rfl
                | none =>
                    have hrejected : r.status = .rejected := by
                      rw [← not_covers_iff, ← Bool.not_eq_true]
                      intro hcovers
                      have hmem := (Table.row?_eq_some.mp hrow).1
                      exact PartialIndex.entryAt?_eq_none.mp hactive r hmem hcovers hemail
                    simp [hrejected]
              · simp [hemail]
  | updating reason =>
      simp only [advance, hphase, DecisionPhase.isUpdating, DecisionPhase.isMarking, Bool.false_and,
        Bool.true_and, Bool.toNat_false, Nat.add_zero]
      obtain ⟨rows, hrows⟩ := reject_goes s.rows d.requestId reason now
      simp only [hrows]
      have hafter := active?_reject h hrows email
      rw [activeCount, activeCount, active?]
      change (uqWaitlistActive.entryAt? rows email).isSome.toNat + _ = _
      rw [hafter]
      cases hactive : s.active? email with
      | none => rfl
      | some r =>
          by_cases hid : r.id = d.requestId
          · simp [hid]
          · simp [hid]

theorem activeCount_erase (h : uqWaitlistActive.Unique s.rows) (email' tenantId : String) :
    (s.step env (.erase email' tenantId)).activeCount email +
      (s.turnsAway email (.erase email' tenantId)).toNat = s.activeCount email := by
  have hafter := PartialIndex.entryAt?_delete h (belongs email' tenantId) email
  rw [activeCount, activeCount, active?]
  change (uqWaitlistActive.entryAt? (s.rows.delete (belongs email' tenantId)) email).isSome.toNat +
    ((s.active? email).any (belongs email' tenantId)).toNat = _
  rw [hafter, ← active?]
  cases s.active? email with
  | none => rfl
  | some r =>
      cases hbelongs : belongs email' tenantId r with
      | true => simp [hbelongs]
      | false => simp [hbelongs]

/-- A step moves the number of active rows of an address by what it inserts, turns away or
readmits. -/
theorem activeCount_step (h : uqWaitlistActive.Unique s.rows) (a : WaitlistStep) :
    (s.step env a).activeCount email + (s.turnsAway email a).toNat =
      s.activeCount email + ((s.inserts email a).toNat + (s.readmits email a).toNat) := by
  cases a with
  | submit body newId now =>
      change (s.submit body newId now).activeCount email + 0 = _ + (_ + 0)
      rw [activeCount, activeCount, active?_submit h]
      cases hinserts : s.inserts email (.submit body newId now) with
      | false => rfl
      | true =>
          have hnone : s.active? email = none := by
            simp only [inserts, Bool.and_eq_true] at hinserts
            exact Option.isNone_iff_eq_none.mp hinserts.1.2
          rw [hnone]
          rfl
  | proceed i =>
      change (s.step env (.proceed i)).activeCount email + 0 = s.activeCount email + (0 + 0)
      cases hsub : s.submissions[i]? with
      | none => simp [step, hsub]
      | some sub => simp [step, hsub, activeCount, active?_congr (proceed_rows s i sub)]
  | decide decision requestId => rfl
  | advance i now registered fails =>
      cases fails with
      | true =>
          cases hd : s.decisions[i]? with
          | none => simp [step, hd, turnsAway, readmits, inserts]
          | some d =>
              simp [step, hd, turnsAway, readmits, inserts, setDecision, activeCount, active?]
      | false =>
          cases hd : s.decisions[i]? with
          | none => simp [step, hd, turnsAway, readmits, inserts]
          | some d =>
              have hadvance := activeCount_advance env email h hd now registered
              simpa [step, hd, inserts] using hadvance
  | erase email' tenantId => exact activeCount_erase env email h email' tenantId

end Balance

section Runs
variable (env : PilotEnv) {s : Waitlist} {email : String}

theorem advance_rows (s : Waitlist) (i : ℕ) (d : Decision) (now : Int)
    (registered : Option String) :
    (s.advance env i d now registered).rows = s.rows ∨
      (∃ tenantId, uqWaitlistActive.updateRow s.rows d.requestId
        (WaitlistRow.approve tenantId now) (WaitlistRow.approve_id tenantId now) =
          some (s.advance env i d now registered).rows) ∨
      ∃ reason, uqWaitlistActive.updateRow s.rows d.requestId (WaitlistRow.reject reason now)
        (WaitlistRow.reject_id reason now) = some (s.advance env i d now registered).rows := by
  cases hphase : d.phase with
  | reading =>
      left
      simp only [advance, hphase]
      split
      case h_1 => rfl
      case h_2 =>
          split
          case isTrue => rfl
          case isFalse =>
              split
              case h_1 => split <;> rfl
              case h_2 => rfl
  | registering =>
      left
      simp only [advance, hphase]
      cases registered <;> rfl
  | marking tenantId =>
      simp only [advance, hphase]
      split
      case h_1 => exact .inl rfl
      case h_2 rows hrows => exact .inr (.inl ⟨tenantId, hrows⟩)
  | updating reason =>
      simp only [advance, hphase]
      split
      case h_1 => exact .inl rfl
      case h_2 rows hrows => exact .inr (.inr ⟨reason, hrows⟩)
  | ended => simp [advance, hphase]

theorem unique_step (h : uqWaitlistActive.Unique s.rows) (a : WaitlistStep) :
    uqWaitlistActive.Unique (s.step env a).rows := by
  cases a with
  | submit body newId now =>
      change uqWaitlistActive.Unique (s.submit body newId now).rows
      rw [submit]
      cases hactive : s.active? body.email with
      | some r => exact h
      | none =>
          simp only [Option.isSome_none, Bool.false_eq_true, if_false]
          cases hrows : s.rows.insert (body.row newId now) with
          | none => exact h
          | some rows => exact h.insert (r := body.row newId now) hactive hrows
  | proceed i =>
      cases hsub : s.submissions[i]? with
      | none => simpa [step, hsub] using h
      | some sub =>
          simp only [step, hsub, proceed_rows]
          exact h
  | decide decision requestId => exact h
  | advance i now registered fails =>
      cases hd : s.decisions[i]? with
      | none => simpa [step, hd] using h
      | some d =>
          cases fails with
          | true => simpa [step, hd, setDecision] using h
          | false =>
              simp only [step, hd, Bool.false_eq_true, if_false]
              cases advance_rows env s i d now registered with
              | inl hsame => rwa [hsame]
              | inr hupdated =>
                  cases hupdated with
                  | inl hmarked =>
                      obtain ⟨tenantId, hrows⟩ := hmarked
                      exact h.updateRow hrows
                  | inr hrejected =>
                      obtain ⟨reason, hrows⟩ := hrejected
                      exact h.updateRow hrows
  | erase email' tenantId => exact h.delete (belongs email' tenantId)

/-- A submission that moves on counts for what it has reached. -/
theorem count_setPhase {i : ℕ} {sub : Submission} (hsub : s.submissions[i]? = some sub)
    (phase : SubmissionPhase) (reached : SubmissionPhase → Bool) (email : String) :
    (s.setPhase i sub phase).count email reached +
        (decide (sub.body.email = email) && reached sub.phase).toNat =
      s.count email reached + (decide (sub.body.email = email) && reached phase).toNat :=
  countP_set_toNat hsub (fun sub => decide (sub.body.email = email) && reached sub.phase)
    { sub with phase := phase }

theorem count_submit (body : WaitlistRequestBody) (newId : String) (now : Int)
    (reached : SubmissionPhase → Bool) (email : String) :
    (s.submit body newId now).count email reached =
      s.count email reached + (decide (body.email = email) && reached
        (if (s.active? body.email).isSome then .selecting
        else if (s.rows.row? newId).isSome then .failed
        else .acknowledging newId now)).toNat := by
  have hone : ∀ phase, ∀ rows : WaitlistTable,
      ({ s with rows := rows, submissions := s.submissions ++ [⟨body, phase⟩] } : Waitlist).count
          email reached =
        s.count email reached + (decide (body.email = email) && reached phase).toNat := by
    intro phase rows
    rw [count, countP_concat]
    cases decide (body.email = email) && reached phase <;> rfl
  rw [submit]
  cases hactive : s.active? body.email with
  | some r => exact hone .selecting s.rows
  | none =>
      simp only [Option.isSome_none, Bool.false_eq_true, if_false]
      cases hrow : s.rows.row? newId with
      | some r =>
          have hfail : s.rows.insert (body.row newId now) = none := Table.insert_eq_none hrow
          rw [hfail]
          exact hone .failed s.rows
      | none =>
          obtain ⟨rows, hrows⟩ := Table.exists_insert (r := body.row newId now) hrow
          rw [hrows]
          exact hone (.acknowledging newId now) rows

/-- A submission that moves on to a phase has sent what it counts for there. -/
structure Moves (sub : Submission) (phase : SubmissionPhase) (mails : List Mail) : Prop where
  inserted : phase.inserted = sub.phase.inserted
  acknowledged : ∀ email, mails.countP (Mail.acknowledges email) +
      (decide (sub.body.email = email) && sub.phase.acknowledged).toNat =
    (decide (sub.body.email = email) && phase.acknowledged).toNat
  notified : ∀ email, mails.countP (Mail.notifiesOf email) +
      (decide (sub.body.email = email) && sub.phase.notified).toNat =
    (decide (sub.body.email = email) && phase.notified).toNat

theorem ackMail_acknowledges (body : WaitlistRequestBody) (email : String) :
    (ackMail body).acknowledges email = decide (body.email = email) := by
  rw [ackMail]
  cases pilotSegment body <;> rfl

theorem ackMail_notifiesOf (body : WaitlistRequestBody) (email : String) :
    (ackMail body).notifiesOf email = false := by
  rw [ackMail]
  cases pilotSegment body <;> rfl

theorem proceed_cases (s : Waitlist) (i : ℕ) (sub : Submission) :
    s.proceed i sub = s ∨ ∃ phase mails, Moves sub phase mails ∧
      s.proceed i sub = { s with mails := s.mails ++ mails }.setPhase i sub phase := by
  rw [proceed]
  cases hphase : sub.phase with
  | selecting =>
      right
      simp only
      cases s.oldestActive sub.body.email with
      | none =>
          refine ⟨.failed, [], ⟨by rw [hphase]; rfl, ?_, ?_⟩, by rw [List.append_nil]⟩
          · intro email
            simp [hphase, SubmissionPhase.acknowledged]
          · intro email
            simp [hphase, SubmissionPhase.notified]
      | some r =>
          refine ⟨.answered false r.id r.createdAt, [], ⟨by rw [hphase]; rfl, ?_, ?_⟩,
            by rw [List.append_nil]⟩
          · intro email
            simp [hphase, SubmissionPhase.acknowledged]
          · intro email
            simp [hphase, SubmissionPhase.notified]
  | acknowledging requestId createdAt =>
      right
      refine ⟨.notifying requestId createdAt, [ackMail sub.body], ⟨by rw [hphase]; rfl, ?_, ?_⟩,
        rfl⟩
      · intro email
        rw [List.countP_singleton, ackMail_acknowledges, hphase]
        cases decide (sub.body.email = email) <;> rfl
      · intro email
        rw [List.countP_singleton, ackMail_notifiesOf, hphase]
        cases decide (sub.body.email = email) <;> rfl
  | notifying requestId createdAt =>
      right
      refine ⟨.answered true requestId createdAt, [.notify requestId sub.body],
        ⟨by rw [hphase]; rfl, ?_, ?_⟩, rfl⟩
      · intro email
        rw [hphase]
        cases decide (sub.body.email = email) <;> rfl
      · intro email
        rw [List.countP_singleton, hphase, Mail.notifiesOf]
        cases decide (sub.body.email = email) <;> rfl
  | answered inserted requestId createdAt => exact .inl rfl
  | failed => exact .inl rfl

theorem advance_other (s : Waitlist) (i : ℕ) (d : Decision) (now : Int)
    (registered : Option String) :
    (s.advance env i d now registered).submissions = s.submissions ∧
      (s.advance env i d now registered).mails = s.mails := by
  cases hphase : d.phase with
  | reading =>
      simp only [advance, hphase]
      split
      case h_1 => exact ⟨rfl, rfl⟩
      case h_2 =>
          split
          case isTrue => exact ⟨rfl, rfl⟩
          case isFalse =>
              split
              case h_1 => split <;> exact ⟨rfl, rfl⟩
              case h_2 => exact ⟨rfl, rfl⟩
  | registering =>
      simp only [advance, hphase]
      cases registered <;> exact ⟨rfl, rfl⟩
  | marking tenantId =>
      simp only [advance, hphase]
      split <;> exact ⟨rfl, rfl⟩
  | updating reason =>
      simp only [advance, hphase]
      split <;> exact ⟨rfl, rfl⟩
  | ended => simp [advance, hphase]

theorem step_advance_other (s : Waitlist) (i : ℕ) (now : Int) (registered : Option String)
    (fails : Bool) :
    (s.step env (.advance i now registered fails)).submissions = s.submissions ∧
      (s.step env (.advance i now registered fails)).mails = s.mails := by
  cases hd : s.decisions[i]? with
  | none => simp [step, hd]
  | some d =>
      cases fails with
      | true => simp [step, hd, setDecision]
      | false =>
          simp only [step, hd, Bool.false_eq_true, if_false]
          exact advance_other env s i d now registered

theorem count_inserted_step (a : WaitlistStep) :
    (s.step env a).count email SubmissionPhase.inserted =
      s.count email SubmissionPhase.inserted + (s.inserts email a).toNat := by
  cases a with
  | submit body newId now =>
      refine (count_submit body newId now SubmissionPhase.inserted email).trans ?_
      rw [inserts]
      by_cases hemail : body.email = email
      · rw [← hemail]
        cases hactive : s.active? body.email with
        | some r => simp [SubmissionPhase.inserted]
        | none => cases s.rows.row? newId <;> simp [SubmissionPhase.inserted]
      · simp [hemail]
  | proceed i =>
      change _ = s.count email SubmissionPhase.inserted + 0
      cases hsub : s.submissions[i]? with
      | none => simp [step, hsub]
      | some sub =>
          simp only [step, hsub]
          cases proceed_cases s i sub with
          | inl hsame => rw [hsame]; rfl
          | inr hmoves =>
              obtain ⟨phase, mails, hmoves, hnext⟩ := hmoves
              have hset := count_setPhase (s := { s with mails := s.mails ++ mails }) hsub phase
                SubmissionPhase.inserted email
              rw [hmoves.inserted] at hset
              rw [hnext]
              exact Nat.add_right_cancel hset
  | decide decision requestId => rfl
  | advance i now registered fails =>
      rw [count, (step_advance_other env s i now registered fails).1]
      cases fails <;> rfl
  | erase email' tenantId => rfl

/-- The mails that an address has been sent, and that were sent of it. -/
structure MailsRight (s : Waitlist) (email : String) : Prop where
  acknowledged :
    s.mails.countP (Mail.acknowledges email) = s.count email SubmissionPhase.acknowledged
  notified : s.mails.countP (Mail.notifiesOf email) = s.count email SubmissionPhase.notified

theorem MailsRight.step (h : MailsRight s email) (a : WaitlistStep) :
    MailsRight (s.step env a) email := by
  cases a with
  | submit body newId now =>
      have hmails : (s.submit body newId now).mails = s.mails := by
        rw [submit]
        split_ifs
        · rfl
        · cases s.rows.insert (body.row newId now) <;> rfl
      constructor
      · change (s.submit body newId now).mails.countP _ = _
        rw [hmails, h.acknowledged]
        refine ((count_submit body newId now SubmissionPhase.acknowledged email).trans ?_).symm
        split_ifs <;> simp [SubmissionPhase.acknowledged]
      · change (s.submit body newId now).mails.countP _ = _
        rw [hmails, h.notified]
        refine ((count_submit body newId now SubmissionPhase.notified email).trans ?_).symm
        split_ifs <;> simp [SubmissionPhase.notified]
  | proceed i =>
      cases hsub : s.submissions[i]? with
      | none => simpa [Waitlist.step, hsub] using h
      | some sub =>
          simp only [Waitlist.step, hsub]
          cases proceed_cases s i sub with
          | inl hsame =>
              rw [hsame]
              exact h
          | inr hmoves =>
              obtain ⟨phase, mails, hmoves, hnext⟩ := hmoves
              rw [hnext]
              constructor
              · have hset := count_setPhase (s := { s with mails := s.mails ++ mails }) hsub phase
                  SubmissionPhase.acknowledged email
                have hsent := hmoves.acknowledged email
                have hbefore := h.acknowledged
                change (s.mails ++ mails).countP _ = _
                rw [List.countP_append]
                change _ = s.count email SubmissionPhase.acknowledged + _ at hset
                omega
              · have hset := count_setPhase (s := { s with mails := s.mails ++ mails }) hsub phase
                  SubmissionPhase.notified email
                have hsent := hmoves.notified email
                have hbefore := h.notified
                change (s.mails ++ mails).countP _ = _
                rw [List.countP_append]
                change _ = s.count email SubmissionPhase.notified + _ at hset
                omega
  | decide decision requestId => exact ⟨h.acknowledged, h.notified⟩
  | advance i now registered fails =>
      obtain ⟨hsubmissions, hmails⟩ := step_advance_other env s i now registered fails
      constructor
      · rw [hmails, count, hsubmissions]
        exact h.acknowledged
      · rw [hmails, count, hsubmissions]
        exact h.notified
  | erase email' tenantId => exact ⟨h.acknowledged, h.notified⟩

theorem active_same_mark (h : uqWaitlistActive.Unique s.rows) {r : WaitlistRow}
    (hr : s.active? email = some r) {requestId tenantId : String} {now : Int}
    {rows : WaitlistTable}
    (hrows : uqWaitlistActive.updateRow s.rows requestId (WaitlistRow.approve tenantId now)
      (WaitlistRow.approve_id tenantId now) = some rows) :
    ∃ r', uqWaitlistActive.entryAt? rows email = some r' ∧ r'.id = r.id ∧
      r'.createdAt = r.createdAt := by
  rw [active?_mark h hrows]
  split
  case isFalse => exact ⟨r, hr, rfl, rfl⟩
  case isTrue hown =>
      obtain ⟨x, hx, hemail⟩ := (Option.any_eq_true _ _).mp hown
      obtain ⟨hmem, hcovers, hcolumn⟩ := (PartialIndex.entryAt?_eq_some h).mp hr
      obtain ⟨_, hfree⟩ := PartialIndex.updateRow_eq_some hrows
      -- Another row of the address could not be approved beside the active one.
      have hsame : r.id = x.id := by
        by_contra hne
        have hclash := hfree x hx
        rw [← Bool.not_eq_true, PartialIndex.clashes_iff] at hclash
        exact hclash ⟨rfl, r, hmem, hne, hcovers,
          hcolumn.trans (of_decide_eq_true hemail).symm⟩
      have hxr : x = r :=
        List.inj_on_of_nodup_map s.rows.unique (Table.row?_eq_some.mp hx).1 hmem hsame.symm
      rw [hx, Option.map_some, hxr]
      exact ⟨_, rfl, rfl, rfl⟩

/-- While the address keeps an active row it is the same one. -/
theorem active_same (h : uqWaitlistActive.Unique s.rows) {r : WaitlistRow}
    (hr : s.active? email = some r) (a : WaitlistStep)
    (hkept : ((s.step env a).active? email).isSome = true) :
    ∃ r', (s.step env a).active? email = some r' ∧ r'.id = r.id ∧ r'.createdAt = r.createdAt := by
  cases a with
  | submit body newId now =>
      have hafter := active?_submit h body newId now email
      have hnot : s.inserts email (.submit body newId now) = false := by
        simp [inserts, hr]
      rw [hnot] at hafter
      exact ⟨r, hafter.trans hr, rfl, rfl⟩
  | proceed i =>
      refine ⟨r, ?_, rfl, rfl⟩
      cases hsub : s.submissions[i]? with
      | none => simpa [step, hsub] using hr
      | some sub =>
          simp only [step, hsub]
          exact (active?_congr (proceed_rows s i sub) email).trans hr
  | decide decision requestId => exact ⟨r, hr, rfl, rfl⟩
  | advance i now registered fails =>
      cases hd : s.decisions[i]? with
      | none => exact ⟨r, by simpa [step, hd] using hr, rfl, rfl⟩
      | some d =>
          cases fails with
          | true =>
              refine ⟨r, ?_, rfl, rfl⟩
              simpa [step, hd, setDecision, active?] using hr
          | false =>
              simp only [step, hd, Bool.false_eq_true, if_false] at hkept ⊢
              cases advance_rows env s i d now registered with
              | inl hsame => exact ⟨r, (active?_congr hsame email).trans hr, rfl, rfl⟩
              | inr hupdated =>
                  cases hupdated with
                  | inl hmarked =>
                      obtain ⟨tenantId, hrows⟩ := hmarked
                      exact active_same_mark h hr hrows
                  | inr hrejected =>
                      obtain ⟨reason, hrows⟩ := hrejected
                      have hafter := active?_reject h hrows email
                      rw [active?, hafter, hr] at hkept
                      refine ⟨r, ?_, rfl, rfl⟩
                      rw [active?, hafter, hr]
                      cases hid : decide (r.id ≠ d.requestId) with
                      | false => simp [Option.filter, hid] at hkept
                      | true => simp [Option.filter, hid]
  | erase email' tenantId =>
      have hafter : (s.step env (.erase email' tenantId)).active? email =
          (s.active? email).filter fun r => !belongs email' tenantId r :=
        PartialIndex.entryAt?_delete h (belongs email' tenantId) email
      rw [hafter, hr] at hkept ⊢
      cases hbelongs : belongs email' tenantId r with
      | true => simp [hbelongs] at hkept
      | false => exact ⟨r, by simp [hbelongs], rfl, rfl⟩

/-- A submission that has lost against the row, and has been told of none but it. -/
def NamesRow (s : Waitlist) (i : ℕ) (body : WaitlistRequestBody) (requestId : String)
    (createdAt : Int) : Prop :=
  ∃ phase, s.submissions[i]? = some ⟨body, phase⟩ ∧
    (phase = .selecting ∨ phase = .answered false requestId createdAt)

theorem NamesRow.step {i : ℕ} {body : WaitlistRequestBody} {r : WaitlistRow}
    (h : NamesRow s i body r.id r.createdAt) (hunique : uqWaitlistActive.Unique s.rows)
    (hr : s.active? body.email = some r) (a : WaitlistStep) :
    NamesRow (s.step env a) i body r.id r.createdAt := by
  obtain ⟨phase, hsub, hphase⟩ := h
  cases a with
  | submit body' newId now =>
      refine ⟨phase, ?_, hphase⟩
      change (s.submit body' newId now).submissions[i]? = _
      rw [submit]
      split_ifs
      · exact getElem?_append_of_some hsub _
      · cases s.rows.insert (body'.row newId now) with
        | none => exact getElem?_append_of_some hsub _
        | some rows => exact getElem?_append_of_some hsub _
  | proceed j =>
      by_cases hj : j = i
      · rw [hj]
        simp only [Waitlist.step, hsub]
        cases hphase with
        | inl hselecting =>
            simp only [hselecting, proceed, oldestActive_eq hunique, hr]
            exact ⟨.answered false r.id r.createdAt,
              List.getElem?_set_self (List.getElem?_eq_some_iff.mp hsub).1, .inr rfl⟩
        | inr hanswered =>
            simp only [hanswered, proceed]
            exact ⟨phase, hsub, .inr hanswered⟩
      · refine ⟨phase, ?_, hphase⟩
        cases hother : s.submissions[j]? with
        | none => simpa [Waitlist.step, hother] using hsub
        | some sub =>
            simp only [Waitlist.step, hother]
            cases proceed_cases s j sub with
            | inl hsame => rwa [hsame]
            | inr hmoves =>
                obtain ⟨phase', mails, _, hnext⟩ := hmoves
                rw [hnext]
                exact (List.getElem?_set_ne hj).trans hsub
  | decide decision requestId => exact ⟨phase, hsub, hphase⟩
  | advance j now registered fails =>
      rw [NamesRow, (step_advance_other env s j now registered fails).1]
      exact ⟨phase, hsub, hphase⟩
  | erase email' tenantId => exact ⟨phase, hsub, hphase⟩

theorem NamesRow.exec {i : ℕ} {body : WaitlistRequestBody} {r : WaitlistRow}
    (h : NamesRow s i body r.id r.createdAt) (hunique : uqWaitlistActive.Unique s.rows)
    (hr : s.active? body.email = some r) {as : List WaitlistStep}
    (hkept : Always (Waitlist.step env) (fun s => (s.active? body.email).isSome = true) s as) :
    NamesRow (Library.exec (Waitlist.step env) s as) i body r.id r.createdAt := by
  induction as generalizing s r with
  | nil => exact h
  | cons a as ih =>
      obtain ⟨r', hr', hid, hcreated⟩ := active_same env hunique hr a hkept.2.head
      have hnext := h.step env hunique hr a
      rw [← hid, ← hcreated] at hnext ⊢
      exact ih hnext (unique_step env hunique a) hr' hkept.2

end Runs

/-- On every run the index holds, the rows that were inserted or readmitted for an address are the
active one and those turned away, and the address is written to once for each row. A submission
that loses is told of the very row it lost against, as long as the address keeps one. -/
theorem waitlist_runs (env : PilotEnv) (steps : List WaitlistStep) :
    Always (step env) (fun s => uqWaitlistActive.Unique s.rows) emptyWaitlist steps ∧
    (∀ email, (exec (step env) emptyWaitlist steps).count email SubmissionPhase.inserted +
        total (step env) (fun s a => (s.readmits email a).toNat) emptyWaitlist steps =
      (exec (step env) emptyWaitlist steps).activeCount email +
        total (step env) (fun s a => (s.turnsAway email a).toNat) emptyWaitlist steps) ∧
    (∀ email, MailsRight (exec (step env) emptyWaitlist steps) email) ∧
    ∀ before body newId now after r, steps = before ++ .submit body newId now :: after →
      (exec (step env) emptyWaitlist before).active? body.email = some r →
      Always (step env) (fun s => (s.active? body.email).isSome = true)
        (exec (step env) emptyWaitlist (before ++ [.submit body newId now])) after →
      NamesRow (exec (step env) emptyWaitlist steps)
        (exec (step env) emptyWaitlist before).submissions.length body r.id r.createdAt := by
  have hempty : uqWaitlistActive.Unique emptyWaitlist.rows := fun r hr => by cases hr
  have hkept : ∀ (s : Waitlist) a, uqWaitlistActive.Unique s.rows →
      uqWaitlistActive.Unique (step env s a).rows := fun _ a h => unique_step env h a
  have hunique : ∀ steps, Always (step env) (fun s => uqWaitlistActive.Unique s.rows)
      emptyWaitlist steps := always_of_step hkept hempty
  refine ⟨hunique steps, ?_, ?_, ?_⟩
  · intro email
    have hactive := total_balance (fun s : Waitlist => s.activeCount email)
      (fun (s : Waitlist) a => (s.inserts email a).toNat + (s.readmits email a).toNat)
      (fun (s : Waitlist) a => (s.turnsAway email a).toNat) hkept
      (fun _ a h => activeCount_step env email h a) hempty steps
    have hinserted := total_balance (fun s : Waitlist => s.count email SubmissionPhase.inserted)
      (fun (s : Waitlist) a => (s.inserts email a).toNat) (fun _ _ => 0) hkept
      (fun s a _ => count_inserted_step env a) hempty steps
    rw [total_add] at hactive
    rw [total_zero] at hinserted
    change _ = 0 + _ at hactive
    change _ = 0 + _ at hinserted
    omega
  · intro email
    have hright : MailsRight emptyWaitlist email := ⟨rfl, rfl⟩
    have hstep : ∀ (s : Waitlist) a, MailsRight s email → MailsRight (step env s a) email :=
      fun _ a h => h.step env a
    exact (always_of_step hstep hright steps).last
  · intro before body newId now after r hsteps hr hactive
    have hbefore := (hunique before).last
    rw [hsteps, ← List.singleton_append, ← List.append_assoc, exec_append]
    have hlost : exec (step env) emptyWaitlist (before ++ [.submit body newId now]) =
        (exec (step env) emptyWaitlist before).submit body newId now := by
      rw [exec_append]
      rfl
    have hconflict : (exec (step env) emptyWaitlist before).submit body newId now =
        { exec (step env) emptyWaitlist before with
          submissions := (exec (step env) emptyWaitlist before).submissions ++
            [⟨body, .selecting⟩] } := by
      rw [submit, hr]
      rfl
    apply NamesRow.exec env ?_ ?_ ?_ hactive
    · rw [hlost, hconflict]
      exact ⟨.selecting, by simp, .inl rfl⟩
    · exact (hunique (before ++ [.submit body newId now])).last
    · rw [hlost, hconflict]
      exact hr

end Waitlist

end Engramia.Pilots
