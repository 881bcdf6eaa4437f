import Engramia.AdminAuth.Totp
import Engramia.Library.Run

/-!
Runs of the admin authentication service, one call after the other, from an empty table of
sessions. Beside the tables a run keeps its own history: which session replaced which, and
every TOTP code that was verified, with the instant of the check, the clock reading that the
call wrote for it and whether the session it was meant for was unrevoked at the time.
-/
namespace Engramia.AdminAuth
open Engramia.Library

structure Verification where
  session : String
  verified : Int
  recorded : Int
  current : Bool
deriving DecidableEq

structure AdminRun where
  tables : AdminTables
  rotations : List (String × String)
  verifications : List Verification

inductive AdminOp where
  | attemptTotp (call : TotpCall)
  | reauthTotp (call : TotpCall) (sessionId : String)
  | refresh (call : RefreshCall)
  | logout (sessionId : String) (now : Int)

/-- The last verification, of those that count, for a session or for one it descends from. -/
def latestVerification (rotations : List (String × String)) (verifications : List Verification)
    (counts : Verification → Bool) (id : String) : Option Verification :=
  (verifications.filter fun v =>
    counts v && decide (id ∈ descendants rotations v.session)).getLast?

/-- The tables after a call, and what its success adds to the history. -/
def AdminRun.after (s : AdminRun) (done : AdminTables × Option TotpOutcome)
    (rotations : List (String × String)) (verifications : List Verification) : AdminRun :=
  if succeeded done.2 then
    { tables := done.1
      rotations := s.rotations ++ rotations
      verifications := s.verifications ++ verifications }
  else { s with tables := done.1 }

section Steps
variable (lib : TotpLibrary) (hash : String → String)

def adminStep (s : AdminRun) : AdminOp → AdminRun
  | .attemptTotp call =>
      s.after (attemptTotp lib hash s.tables call) []
        [{ session := call.newId
           verified := call.readings.verified
           recorded := call.readings.issued
           current := true }]
  | .reauthTotp call sessionId =>
      s.after (reauthTotp lib hash s.tables call sessionId) []
        [{ session := sessionId
           verified := call.readings.verified
           recorded := call.readings.stamped
           current := decide (Unrevoked s.tables.sessions sessionId) }]
  | .refresh call =>
      s.after (refresh hash s.tables call)
        ((sessionByHash s.tables.sessions (hash call.refreshToken)).map fun r =>
          (r.id, call.newId)).toList []
  | .logout sessionId now => { s with tables := logout s.tables sessionId now }

/-- Any admins and login attempts, no session. -/
def loggedOut (users : Table AdminUser.id) (attempts : List LoginAttempt) : AdminRun where
  tables := { users := users, sessions := ⟨[], List.nodup_nil⟩, attempts := attempts }
  rotations := []
  verifications := []

/-- What a live session's anchor is: the instant of the last verification in its lineage. -/
def AnchoredAtVerification (s : AdminRun) : Prop :=
  ∀ id now anchor, sessionFreshness s.tables id now = some anchor →
    ∃ v, latestVerification s.rotations s.verifications (fun _ => true) id = some v ∧
      anchor = v.verified

/-- What a live session's anchor is: the clock reading that was written for the last
verification in its lineage that was meant for a session not revoked yet. -/
def Anchored (s : AdminRun) : Prop :=
  ∀ id now anchor, sessionFreshness s.tables id now = some anchor →
    ∃ v, latestVerification s.rotations s.verifications Verification.current id = some v ∧
      anchor = v.recorded ∧ v.verified ≤ anchor

/-- A session without its anchor. -/
def AdminSession.unanchored (r : AdminSession) : AdminSession :=
  { r with totpIssuedAt := 0 }

/-- What one call may do to the sessions. -/
structure FreshnessLaw (s : AdminRun) (op : AdminOp) : Prop where
  /-- Only a successful re-prompt moves the anchor of a session. -/
  moved : ∀ id r r', s.tables.sessions.row? id = some r →
    (adminStep lib hash s op).tables.sessions.row? id = some r' →
    r'.totpIssuedAt ≠ r.totpIssuedAt →
    ∃ call, op = .reauthTotp call id ∧
      succeeded (reauthTotp lib hash s.tables call id).2 = true ∧
      r'.totpIssuedAt = call.readings.stamped
  /-- A session is opened by a successful TOTP step, or it copies the anchor of the session
  that it replaces. -/
  opened : ∀ id r', s.tables.sessions.row? id = none →
    (adminStep lib hash s op).tables.sessions.row? id = some r' →
    (∃ call, op = .attemptTotp call ∧
      succeeded (attemptTotp lib hash s.tables call).2 = true ∧
      r'.totpIssuedAt = call.readings.issued) ∨
    ∃ call r, op = .refresh call ∧
      sessionByHash s.tables.sessions (hash call.refreshToken) = some r ∧
      r'.totpIssuedAt = r.totpIssuedAt
  /-- A re-prompt leaves the set of sessions as it is. -/
  reprompted : ∀ call id, op = .reauthTotp call id →
    (adminStep lib hash s op).tables.sessions.rows.map AdminSession.unanchored =
      s.tables.sessions.rows.map AdminSession.unanchored
  /-- The token of a session that is revoked or was replaced ends every session of its
  admin. -/
  replayed : ∀ call r, op = .refresh call →
    sessionByHash s.tables.sessions (hash call.refreshToken) = some r →
    (r.revokedAt.isSome = true ∨ ∃ l ∈ s.rotations, l.1 = r.id) →
    ∀ x ∈ (adminStep lib hash s op).tables.sessions.rows, x.adminUserId = r.adminUserId →
      ∀ now, x.live now = false

end Steps

section Latest
variable {rotations : List (String × String)} {verifications : List Verification}
  {counts : Verification → Bool} {v : Verification} {id : String}

theorem latestVerification_append (hcounts : counts v = true)
    (hid : id ∈ descendants rotations v.session) :
    latestVerification rotations (verifications ++ [v]) counts id = some v := by
  have hkept : (counts v && decide (id ∈ descendants rotations v.session)) = true := by
    rw [hcounts, decide_eq_true hid]
    rfl
  rw [latestVerification, List.filter_append, List.filter_cons, if_pos hkept]
  exact List.getLast?_concat

theorem latestVerification_append_of_other
    (h : counts v = true → id ∉ descendants rotations v.session) :
    latestVerification rotations (verifications ++ [v]) counts id =
      latestVerification rotations verifications counts id := by
  have hskipped : ¬ (counts v && decide (id ∈ descendants rotations v.session)) = true := by
    rw [Bool.and_eq_true, decide_eq_true_iff]
    exact fun hkept => h hkept.1 hkept.2
  rw [latestVerification, List.filter_append, List.filter_cons, if_neg hskipped, List.filter_nil,
    List.append_nil]
  rfl

theorem latestVerification_congr {rotations' : List (String × String)} {id' : String}
    (h : ∀ v ∈ verifications, counts v = true →
      (id' ∈ descendants rotations' v.session ↔ id ∈ descendants rotations v.session)) :
    latestVerification rotations' verifications counts id' =
      latestVerification rotations verifications counts id := by
  rw [latestVerification, latestVerification]
  apply congrArg List.getLast?
  apply List.filter_congr
  intro v hv
  cases hcounts : counts v with
  | true => rw [Bool.true_and, Bool.true_and, decide_eq_decide, h v hv hcounts]
  | false => rfl

end Latest

section Anchor
variable {t : SessionTable} {sessionId id : String} {ts : Int}

theorem row?_advanceAnchor :
    (advanceAnchor t sessionId ts).row? id =
      (t.row? id).map fun r =>
        if r.id = sessionId && r.revokedAt.isNone then { r with totpIssuedAt := ts } else r := by
  rw [advanceAnchor, Table.row?_update]

theorem row?_advanceAnchor_cases {r' : AdminSession}
    (h : (advanceAnchor t sessionId ts).row? id = some r') :
    ∃ r, t.row? id = some r ∧ r'.revokedAt = r.revokedAt ∧
      (id = sessionId ∧ r.revokedAt = none ∧ r'.totpIssuedAt = ts ∨
        r' = r ∧ (id = sessionId → r.revokedAt ≠ none)) := by
  rw [row?_advanceAnchor] at h
  obtain ⟨r, hr, heq⟩ := Option.map_eq_some_iff.mp h
  have hid := (Table.row?_eq_some.mp hr).2
  by_cases hmatch : (r.id = sessionId && r.revokedAt.isNone) = true
  · rw [if_pos hmatch] at heq
    rw [Bool.and_eq_true, decide_eq_true_iff, Option.isNone_iff_eq_none] at hmatch
    rw [← heq]
    exact ⟨r, hr, rfl, .inl ⟨hid.symm.trans hmatch.1, hmatch.2, rfl⟩⟩
  · rw [if_neg hmatch] at heq
    rw [Bool.and_eq_true, decide_eq_true_iff, Option.isNone_iff_eq_none] at hmatch
    rw [← heq]
    exact ⟨r, hr, rfl, .inr ⟨rfl, fun hsame hnone => hmatch ⟨hid.trans hsame, hnone⟩⟩⟩

theorem hasSession_advanceAnchor (h : HasSession t id) :
    HasSession (advanceAnchor t sessionId ts) id := by
  obtain ⟨r, hr⟩ := h
  rw [HasSession, row?_advanceAnchor, hr]
  exact ⟨_, rfl⟩

theorem unrevoked_of_advanceAnchor (h : Unrevoked (advanceAnchor t sessionId ts) id) :
    Unrevoked t id := by
  obtain ⟨r', hr', hnone⟩ := h
  obtain ⟨r, hr, hsame, -⟩ := row?_advanceAnchor_cases hr'
  exact ⟨r, hr, hsame ▸ hnone⟩

theorem unanchored_advanceAnchor :
    (advanceAnchor t sessionId ts).rows.map AdminSession.unanchored =
      t.rows.map AdminSession.unanchored := by
  apply map_updateWhere_eq_self_iff.mpr
  intro r _ _
  rfl

end Anchor

/-- The history accounts for every session that is not revoked. -/
structure Recorded (t : SessionTable) (rotations : List (String × String))
    (verifications : List Verification) : Prop where
  linked : Linked t rotations
  known : ∀ v ∈ verifications, v.current = true → HasSession t v.session
  ordered : ∀ v ∈ verifications, v.verified ≤ v.recorded
  anchored : ∀ id r, t.row? id = some r → r.revokedAt = none →
    ∃ v, latestVerification rotations verifications Verification.current id = some v ∧
      r.totpIssuedAt = v.recorded

namespace Recorded
variable {t t' : SessionTable} {rotations : List (String × String)}
  {verifications : List Verification}

theorem revokeWhere (h : Recorded t rotations verifications) (p : AdminSession → Bool)
    (now : Int) : Recorded (Engramia.AdminAuth.revokeWhere t p now) rotations verifications where
  linked := h.linked.revokeWhere
  known v hv hcurrent := hasSession_revokeWhere.mpr (h.known v hv hcurrent)
  ordered := h.ordered
  anchored id r hr hnone := h.anchored id r (row?_of_revokeWhere hr hnone) hnone

theorem openSession (h : Recorded t rotations verifications) {new : AdminSession}
    (hinsert : t.insert new = some t') {verified : Int} (hle : verified ≤ new.totpIssuedAt) :
    Recorded t' rotations (verifications ++ [⟨new.id, verified, new.totpIssuedAt, true⟩]) where
  linked := h.linked.insert hinsert
  known v hv hcurrent := by
    apply (hasSession_insert hinsert).mpr
    cases List.mem_append.mp hv with
    | inl hold => exact .inl (h.known v hold hcurrent)
    | inr hlast => exact .inr (by rw [List.mem_singleton.mp hlast])
  ordered v hv := by
    cases List.mem_append.mp hv with
    | inl hold => exact h.ordered v hold
    | inr hlast =>
        rw [List.mem_singleton.mp hlast]
        exact hle
  anchored id r hr hnone := by
    rw [Table.row?_insert hinsert] at hr
    by_cases hid : new.id = id
    · rw [if_pos hid, Option.some.injEq] at hr
      rw [← hr, ← hid]
      exact ⟨_, latestVerification_append rfl (mem_descendants_self rotations new.id), rfl⟩
    · rw [if_neg hid] at hr
      rw [latestVerification_append_of_other]
      · exact h.anchored id r hr hnone
      · intro _ hd
        exact hid (h.linked.eq_of_unknown (not_hasSession_of_insert hinsert) hd).symm

theorem reprompt (h : Recorded t rotations verifications) (sessionId : String)
    {verified ts : Int} (hle : verified ≤ ts) :
    Recorded (advanceAnchor t sessionId ts) rotations
      (verifications ++ [⟨sessionId, verified, ts, decide (Unrevoked t sessionId)⟩]) where
  linked := h.linked.mono (fun _ => hasSession_advanceAnchor)
    fun _ _ => unrevoked_of_advanceAnchor
  known v hv hcurrent := by
    apply hasSession_advanceAnchor
    cases List.mem_append.mp hv with
    | inl hold => exact h.known v hold hcurrent
    | inr hlast =>
        rw [List.mem_singleton.mp hlast] at hcurrent ⊢
        exact (of_decide_eq_true hcurrent).hasSession
  ordered v hv := by
    cases List.mem_append.mp hv with
    | inl hold => exact h.ordered v hold
    | inr hlast =>
        rw [List.mem_singleton.mp hlast]
        exact hle
  anchored id r' hr' hnone := by
    obtain ⟨r, hr, hsame, hcase⟩ := row?_advanceAnchor_cases hr'
    cases hcase with
    | inl hset =>
        obtain ⟨hid, hrnone, hts⟩ := hset
        have hunrevoked : Unrevoked t sessionId := ⟨r, hid ▸ hr, hrnone⟩
        rw [hid]
        exact ⟨_, latestVerification_append (decide_eq_true hunrevoked)
          (mem_descendants_self rotations sessionId), hts⟩
    | inr hkept =>
        obtain ⟨heq, hother⟩ := hkept
        rw [heq] at hnone ⊢
        rw [latestVerification_append_of_other]
        · exact h.anchored id r hr hnone
        · intro hcurrent hd
          have hunrevoked : Unrevoked t sessionId := of_decide_eq_true hcurrent
          exact hother (h.linked.eq_of_unrevoked hunrevoked hd) hnone

theorem rotate (h : Recorded t rotations verifications) {r : AdminSession}
    {newId newHash ip : String} {now : Int} (hr : t.row? r.id = some r)
    (hnone : r.revokedAt = none)
    (hinsert : (revokeOld t r.id now).insert (r.successor newId newHash now ip) = some t') :
    Recorded t' (rotations ++ [(r.id, newId)]) verifications where
  linked := h.linked.rotate ⟨r, hr⟩ hinsert
  known v hv hcurrent := by
    apply (hasSession_insert hinsert).mpr
    exact .inl (hasSession_revokeWhere.mpr (h.known v hv hcurrent))
  ordered := h.ordered
  anchored id x hx hxnone := by
    have hnew := not_hasSession_of_rotation hinsert
    rw [row?_rotation hinsert] at hx
    by_cases hid : newId = id
    · rw [if_pos hid, Option.some.injEq] at hx
      rw [← hx, ← hid]
      obtain ⟨v, hv, hanchor⟩ := h.anchored r.id r hr hnone
      refine ⟨v, ?_, hanchor⟩
      rw [← hv]
      apply latestVerification_congr
      intro w hw hcurrent
      rw [mem_descendants_append, and_iff_left rfl]
      apply or_iff_right
      intro hd
      exact hnew (h.linked.known_descendant (h.known w hw hcurrent) hd)
    · rw [if_neg hid] at hx
      obtain ⟨v, hv, hanchor⟩ := h.anchored id x (row?_of_revokeWhere hx hxnone) hxnone
      refine ⟨v, ?_, hanchor⟩
      rw [← hv]
      apply latestVerification_congr
      intro w _ _
      rw [mem_descendants_append]
      exact or_iff_left fun hlast => hid hlast.2.symm

end Recorded

/-- The invariant of a run. -/
def FreshnessInv (s : AdminRun) : Prop :=
  Recorded s.tables.sessions s.rotations s.verifications

section Run
variable {lib : TotpLibrary} {hash : String → String} {s : AdminRun}

theorem after_of_failed {done : AdminTables × Option TotpOutcome}
    {rotations : List (String × String)} {verifications : List Verification}
    (h : succeeded done.2 = false) :
    s.after done rotations verifications = { s with tables := done.1 } := by
  rw [AdminRun.after, h, if_neg Bool.false_ne_true]

theorem after_of_succeeded {done : AdminTables × Option TotpOutcome}
    {rotations : List (String × String)} {verifications : List Verification}
    (h : succeeded done.2 = true) :
    s.after done rotations verifications =
      ⟨done.1, s.rotations ++ rotations, s.verifications ++ verifications⟩ := by
  rw [AdminRun.after, if_pos h]

theorem after_tables (done : AdminTables × Option TotpOutcome)
    (rotations : List (String × String)) (verifications : List Verification) :
    (s.after done rotations verifications).tables = done.1 := by
  cases h : succeeded done.2 with
  | true => rw [after_of_succeeded h]
  | false => rw [after_of_failed h]

namespace FreshnessInv

theorem failed (h : FreshnessInv s) {done : AdminTables × Option TotpOutcome}
    {rotations : List (String × String)} {verifications : List Verification}
    (hsessions : done.1.sessions = s.tables.sessions) (hfailed : succeeded done.2 = false) :
    FreshnessInv (s.after done rotations verifications) := by
  rw [after_of_failed hfailed, FreshnessInv]
  change Recorded done.1.sessions s.rotations s.verifications
  rw [hsessions]
  exact h

theorem step (h : FreshnessInv s) (op : AdminOp) : FreshnessInv (adminStep lib hash s op) := by
  cases op with
  | attemptTotp call =>
      rw [adminStep]
      cases attemptTotp_cases lib hash s.tables call with
      | inl hfailed => exact h.failed hfailed.1 hfailed.2
      | inr hok =>
          obtain ⟨hinsert, outcome, hanswer, hkind, -⟩ := hok
          have hsucceeded : succeeded (attemptTotp lib hash s.tables call).2 = true := by
            rw [hanswer]
            exact decide_eq_true hkind
          rw [after_of_succeeded hsucceeded, FreshnessInv, List.append_nil]
          exact Recorded.openSession h hinsert call.readings.verified_le
  | reauthTotp call sessionId =>
      rw [adminStep]
      cases reauthTotp_cases lib hash s.tables call sessionId with
      | inl hfailed => exact h.failed hfailed.1 hfailed.2
      | inr hok =>
          rw [after_of_succeeded hok.2, FreshnessInv, List.append_nil]
          dsimp only
          rw [hok.1]
          exact Recorded.reprompt h sessionId
            (Int.le_trans call.readings.verified_le call.readings.issued_le)
  | refresh call =>
      rw [adminStep]
      cases refresh_cases hash s.tables call with
      | inl hfailed => exact h.failed hfailed.1 hfailed.2.1
      | inr hfound =>
          cases hfound with
          | inl hreplay =>
              obtain ⟨r, -, hsessions, hfailed⟩ := hreplay
              rw [after_of_failed hfailed, FreshnessInv]
              dsimp only
              rw [hsessions]
              exact Recorded.revokeWhere h _ _
          | inr hrotated =>
              obtain ⟨r, hfind, hnone, hinsert, hok⟩ := hrotated
              have hrow : s.tables.sessions.row? r.id = some r :=
                Table.row?_eq_some.mpr ⟨List.mem_of_find?_eq_some hfind, rfl⟩
              rw [after_of_succeeded hok, hfind, FreshnessInv, List.append_nil]
              exact Recorded.rotate h hrow hnone hinsert
  | logout sessionId now => exact Recorded.revokeWhere h _ _

theorem anchored (h : FreshnessInv s) : Anchored s := by
  intro id now anchor hfresh
  obtain ⟨r, hfind, hanchor⟩ := Option.map_eq_some_iff.mp hfresh
  have hmatch := List.find?_some hfind
  rw [Bool.and_eq_true, decide_eq_true_iff, AdminSession.live, Bool.and_eq_true,
    Option.isNone_iff_eq_none] at hmatch
  have hrow : s.tables.sessions.row? id = some r :=
    Table.row?_eq_some.mpr ⟨List.mem_of_find?_eq_some hfind, hmatch.1⟩
  obtain ⟨v, hv, hrecorded⟩ := Recorded.anchored h id r hrow hmatch.2.1
  have hmem : v ∈ s.verifications := (List.mem_filter.mp (List.mem_of_getLast? hv)).1
  rw [← hanchor, hrecorded]
  exact ⟨v, hv, rfl, Recorded.ordered h v hmem⟩

theorem revoked_of_rotated (h : FreshnessInv s) {r : AdminSession}
    (hr : s.tables.sessions.row? r.id = some r)
    (hended : r.revokedAt.isSome = true ∨ ∃ l ∈ s.rotations, l.1 = r.id) :
    r.revokedAt.isSome = true := by
  cases hended with
  | inl hrevoked => exact hrevoked
  | inr hrotated =>
      obtain ⟨l, hl, hid⟩ := hrotated
      have hnot := (Recorded.linked h l hl).1
      rw [hid, unrevoked_iff_of_row hr] at hnot
      exact Option.isSome_iff_ne_none.mpr hnot

end FreshnessInv

section Revoked
variable {t : SessionTable} {p : AdminSession → Bool} {now : Int} {id : String}

theorem anchor_revokeWhere {r r' : AdminSession} (hr : t.row? id = some r)
    (hr' : (revokeWhere t p now).row? id = some r') : r'.totpIssuedAt = r.totpIssuedAt := by
  rw [row?_revokeWhere, hr, Option.map_some, Option.some.injEq] at hr'
  rw [← hr']
  cases p r with
  | true => rfl
  | false => rfl

theorem row?_revokeWhere_of_none (hr : t.row? id = none) :
    (revokeWhere t p now).row? id = none := by
  rw [row?_revokeWhere, hr, Option.map_none]

theorem not_live_of_revokeAll {adminUserId : Nat} {r : AdminSession}
    (hr : r ∈ (revokeAll t adminUserId now).rows) (hadmin : r.adminUserId = adminUserId)
    (instant : Int) : r.live instant = false := by
  have hrevoked : r.revokedAt.isNone = false := by
    cases mem_updateWhere_cases hr with
    | inl hwritten =>
        obtain ⟨x, -, -, heq⟩ := hwritten
        rw [heq]
        rfl
    | inr hother => simpa [hadmin] using hother.2
  rw [AdminSession.live, hrevoked, Bool.false_and]

end Revoked

theorem freshnessLaw_attemptTotp (call : TotpCall) :
    FreshnessLaw lib hash s (.attemptTotp call) where
  moved id r r' hr hr' hmoved := by
    rw [adminStep, after_tables] at hr'
    cases attemptTotp_cases lib hash s.tables call with
    | inl hfailed =>
        rw [hfailed.1, hr] at hr'
        cases hr'
        exact absurd rfl hmoved
    | inr hok =>
        have hne : (mintedSession hash call).id ≠ id := by
          intro heq
          have hfresh := Table.insert_fresh hok.1
          rw [heq, hr] at hfresh
          cases hfresh
        rw [Table.row?_insert hok.1, if_neg hne, hr] at hr'
        cases hr'
        exact absurd rfl hmoved
  opened id r' hr hr' := by
    rw [adminStep, after_tables] at hr'
    cases attemptTotp_cases lib hash s.tables call with
    | inl hfailed =>
        rw [hfailed.1, hr] at hr'
        cases hr'
    | inr hok =>
        obtain ⟨hinsert, outcome, hanswer, hkind, -⟩ := hok
        rw [Table.row?_insert hinsert] at hr'
        by_cases hid : (mintedSession hash call).id = id
        · rw [if_pos hid, Option.some.injEq] at hr'
          refine .inl ⟨call, rfl, ?_, ?_⟩
          · rw [hanswer]
            exact decide_eq_true hkind
          · rw [← hr']
            rfl
        · rw [if_neg hid, hr] at hr'
          cases hr'
  reprompted call' id heq := by cases heq
  replayed call' r heq := by cases heq

theorem freshnessLaw_reauthTotp (call : TotpCall) (sessionId : String) :
    FreshnessLaw lib hash s (.reauthTotp call sessionId) where
  moved id r r' hr hr' hmoved := by
    rw [adminStep, after_tables] at hr'
    cases reauthTotp_cases lib hash s.tables call sessionId with
    | inl hfailed =>
        rw [hfailed.1, hr] at hr'
        cases hr'
        exact absurd rfl hmoved
    | inr hok =>
        rw [hok.1] at hr'
        obtain ⟨x, hx, -, hcase⟩ := row?_advanceAnchor_cases hr'
        rw [hr, Option.some.injEq] at hx
        cases hcase with
        | inl hset =>
            rw [hset.1]
            exact ⟨call, rfl, hok.2, hset.2.2⟩
        | inr hkept =>
            rw [hkept.1, hx] at hmoved
            exact absurd rfl hmoved
  opened id r' hr hr' := by
    rw [adminStep, after_tables] at hr'
    cases reauthTotp_cases lib hash s.tables call sessionId with
    | inl hfailed =>
        rw [hfailed.1, hr] at hr'
        cases hr'
    | inr hok =>
        rw [hok.1] at hr'
        obtain ⟨x, hx, -, -⟩ := row?_advanceAnchor_cases hr'
        rw [hr] at hx
        cases hx
  reprompted call' id _ := by
    rw [adminStep, after_tables]
    cases reauthTotp_cases lib hash s.tables call sessionId with
    | inl hfailed => rw [hfailed.1]
    | inr hok => rw [hok.1, unanchored_advanceAnchor]
  replayed call' r heq := by cases heq

theorem freshnessLaw_refresh (h : FreshnessInv s) (call : RefreshCall) :
    FreshnessLaw lib hash s (.refresh call) where
  moved id r r' hr hr' hmoved := by
    rw [adminStep, after_tables] at hr'
    cases refresh_cases hash s.tables call with
    | inl hfailed =>
        rw [hfailed.1, hr] at hr'
        cases hr'
        exact absurd rfl hmoved
    | inr hfound =>
        cases hfound with
        | inl hreplay =>
            obtain ⟨old, -, hsessions, -⟩ := hreplay
            rw [hsessions] at hr'
            exact absurd (anchor_revokeWhere hr hr') hmoved
        | inr hrotated =>
            obtain ⟨old, -, -, hinsert, -⟩ := hrotated
            have hne : call.newId ≠ id := by
              intro heq
              exact not_hasSession_of_rotation hinsert ⟨r, heq ▸ hr⟩
            rw [row?_rotation hinsert, if_neg hne] at hr'
            exact absurd (anchor_revokeWhere hr hr') hmoved
  opened id r' hr hr' := by
    rw [adminStep, after_tables] at hr'
    cases refresh_cases hash s.tables call with
    | inl hfailed =>
        rw [hfailed.1, hr] at hr'
        cases hr'
    | inr hfound =>
        cases hfound with
        | inl hreplay =>
            obtain ⟨old, -, hsessions, -⟩ := hreplay
            rw [hsessions, revokeAll, row?_revokeWhere_of_none hr] at hr'
            cases hr'
        | inr hrotated =>
            obtain ⟨old, hfind, -, hinsert, -⟩ := hrotated
            rw [row?_rotation hinsert] at hr'
            by_cases hid : call.newId = id
            · rw [if_pos hid, Option.some.injEq] at hr'
              refine .inr ⟨call, old, rfl, hfind, ?_⟩
              rw [← hr']
              rfl
            · rw [if_neg hid, revokeOld, row?_revokeWhere_of_none hr] at hr'
              cases hr'
  reprompted call' id heq := by cases heq
  replayed call' r heq hfind hended x hx hadmin now := by
    cases heq
    have hrow : s.tables.sessions.row? r.id = some r :=
      Table.row?_eq_some.mpr ⟨List.mem_of_find?_eq_some hfind, rfl⟩
    have hrevoked := h.revoked_of_rotated hrow hended
    have hnot : r.revokedAt ≠ none := Option.isSome_iff_ne_none.mp hrevoked
    rw [adminStep, after_tables] at hx
    cases refresh_cases hash s.tables call with
    | inl hfailed => exact absurd (hfailed.2.2 r hfind) hnot
    | inr hfound =>
        cases hfound with
        | inl hreplay =>
            obtain ⟨old, hold, hsessions, -⟩ := hreplay
            rw [hfind, Option.some.injEq] at hold
            rw [hsessions, ← hold] at hx
            exact not_live_of_revokeAll hx hadmin now
        | inr hrotated =>
            obtain ⟨old, hold, hnone, -⟩ := hrotated
            rw [hfind, Option.some.injEq] at hold
            rw [← hold] at hnone
            exact absurd hnone hnot

theorem freshnessLaw_logout (sessionId : String) (now : Int) :
    FreshnessLaw lib hash s (.logout sessionId now) where
  moved id r r' hr hr' hmoved := absurd (anchor_revokeWhere hr hr') hmoved
  opened id r' hr hr' := by
    rw [adminStep, logout] at hr'
    dsimp only at hr'
    rw [row?_revokeWhere_of_none hr] at hr'
    cases hr'
  reprompted call' id heq := by cases heq
  replayed call' r heq := by cases heq

theorem FreshnessInv.law (h : FreshnessInv s) (op : AdminOp) : FreshnessLaw lib hash s op := by
  cases op with
  | attemptTotp call => exact freshnessLaw_attemptTotp call
  | reauthTotp call sessionId => exact freshnessLaw_reauthTotp call sessionId
  | refresh call => exact freshnessLaw_refresh h call
  | logout sessionId now => exact freshnessLaw_logout sessionId now

theorem freshnessInv_loggedOut (users : Table AdminUser.id) (attempts : List LoginAttempt) :
    FreshnessInv (loggedOut users attempts) where
  linked l hl := by cases hl
  known v hv := by cases hv
  ordered v hv := by cases hv
  anchored id r hr := by cases hr

end Run

/-- In every run the anchor of a live session is the clock reading that was written for the
last verification in its lineage, and no call changes sessions or anchors but as the law
says. -/
theorem totp_freshness (lib : TotpLibrary) (hash : String → String)
    (users : Table AdminUser.id) (attempts : List LoginAttempt) (run : List AdminOp) :
    Always (adminStep lib hash) Anchored (loggedOut users attempts) run ∧
      AllSteps (adminStep lib hash) (FreshnessLaw lib hash) (loggedOut users attempts) run :=
  always_and_allSteps_of_invariant (fun _ op h => h.step op) (fun _ h => h.anchored)
    (fun _ op h => h.law op) (freshnessInv_loggedOut users attempts) run

/-- The gate lets a session pass only if a code was verified in its lineage and recorded
within the window. -/
theorem recorded_of_requireFreshTotp {lib : TotpLibrary} {hash : String → String}
    (users : Table AdminUser.id) (attempts : List LoginAttempt) (run : List AdminOp)
    {id : String} {windowSeconds dbNow now : Int}
    (hpass : requireFreshTotp (exec (adminStep lib hash) (loggedOut users attempts) run).tables
      id windowSeconds dbNow now = true) :
    ∃ v ∈ (exec (adminStep lib hash) (loggedOut users attempts) run).verifications,
      v.current = true ∧ unixSeconds now - unixSeconds v.recorded ≤ windowSeconds := by
  have hinv : Always (adminStep lib hash) FreshnessInv (loggedOut users attempts) run :=
    always_of_step (fun _ op h => h.step op) (freshnessInv_loggedOut users attempts) run
  obtain ⟨anchor, hanchor, hage⟩ := Option.any_eq_true _ _ |>.mp hpass
  obtain ⟨v, hv, heq, -⟩ := hinv.last.anchored id dbNow anchor hanchor
  obtain ⟨hmem, hcounts⟩ := List.mem_filter.mp (List.mem_of_getLast? hv)
  refine ⟨v, hmem, (Bool.and_eq_true _ _ ▸ hcounts).1, ?_⟩
  rw [← heq]
  exact of_decide_eq_true hage

section Sample

def sampleLibrary : TotpLibrary where
  lower := id
  isspace := fun c => c = ' '
  isdigit := Char.isDigit
  decrypt := fun secret _ => some secret
  verify := fun secret code _ => secret = code

def sampleAdmin : AdminUser where
  id := 1
  email := "admin@example.com"
  totpSecretCiphertext := some "123456"
  totpEnrolled := true
  status := .active

/-- One admin who has not logged in yet. -/
def beforeLogin : AdminRun := loggedOut ⟨[sampleAdmin], List.nodup_singleton _⟩ []

/-- A call whose readings are one instant but for the last transaction of a re-prompt. -/
def sampleTotp (newId newToken : String) (instant : Int) (later : Nat) : TotpCall where
  adminUserId := 1
  code := "123456"
  ip := "10.0.0.1"
  userAgent := none
  readings :=
    { checked := instant
      verified := instant
      issued := instant
      stamped := instant + later
      logged := instant
      checked_le := Int.le_refl _
      verified_le := Int.le_refl _
      issued_le := by omega }
  newId := newId
  newToken := newToken

/-- A re-prompt that verifies its code after 100 seconds and writes 3 seconds later. -/
def slowReprompt : List AdminOp :=
  [.attemptTotp (sampleTotp "session-1" "token-1" 0 0),
    .reauthTotp (sampleTotp "session-2" "token-2" 100000000 3000000) "session-1"]

/-- A re-prompt for a session that was rotated in the meantime. -/
def lateReprompt : List AdminOp :=
  [.attemptTotp (sampleTotp "session-1" "token-1" 0 0),
    .refresh ⟨"token-1", "10.0.0.1", 50000000, "session-2", "token-2"⟩,
    .reauthTotp (sampleTotp "session-3" "token-3" 100000000 0) "session-1"]

theorem not_anchoredAtVerification {s : AdminRun} (id : String) (now anchor : Int)
    (v : Verification) (hfresh : sessionFreshness s.tables id now = some anchor)
    (hlatest : latestVerification s.rotations s.verifications (fun _ => true) id = some v)
    (hne : anchor ≠ v.verified) : ¬ AnchoredAtVerification s := by
  intro h
  obtain ⟨w, hw, hanchor⟩ := h id now anchor hfresh
  rw [hlatest, Option.some.injEq] at hw
  exact hne (hw ▸ hanchor)

/-- The anchor is neither the instant of the check, nor that of a check that was meant for a
session already replaced. -/
theorem anchor_not_verification :
    ¬ Always (adminStep sampleLibrary id) AnchoredAtVerification beforeLogin slowReprompt ∧
      ¬ Always (adminStep sampleLibrary id) AnchoredAtVerification beforeLogin lateReprompt := by
  constructor
  · apply not_always_of_last
    apply not_anchoredAtVerification "session-1" 103000000 103000000
      ⟨"session-1", 100000000, 103000000, true⟩
    · decide +kernel
    · decide +kernel
    · decide
  · apply not_always_of_last
    apply not_anchoredAtVerification "session-2" 100000000 0
      ⟨"session-1", 100000000, 100000000, false⟩
    · decide +kernel
    · decide +kernel
    · decide

end Sample

end Engramia.AdminAuth
