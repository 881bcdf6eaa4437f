import Engramia.AdminAuth.Sessions
import Engramia.Library.Run
import Mathlib.Data.Fintype.Basic
import Mathlib.Logic.Function.Basic

/-!
Concurrent calls of `AdminAuthService.refresh`, each statement a step of its own, under
READ COMMITTED. A statement sees what was committed when it began. An update waits for
a row that another transaction has written, and then looks at the row again; what a
transaction has written is seen by the others once it commits. The update of a replay
goes through the rows that it saw in any order. Any call may be rolled back.

The state keeps its own history: which session replaced which, and how often the token of
each session has been presented to a call that has returned.
-/
namespace Engramia.AdminAuth
open Engramia.Library

/-- Where a call stands, with the session row as it was selected and the time the call began
at. What a rotation inserts is the successor of its row, with the values drawn for it; a
replay has rows to visit still and rows that it has written. -/
inductive RefreshPhase where
  | idle
  | started (rth : String) (now : Int)
  | rotating (old : AdminSession) (now : Int)
  | revokedOld (old : AdminSession) (now : Int)
  | inserted (old : AdminSession) (newId newHash ip : String) (now : Int)
  | replayed (old : AdminSession) (now : Int)
  | sweeping (old : AdminSession) (now : Int) (todo hit : List String)

structure RefreshRace (θ : Type) where
  sessions : SessionTable
  call : θ → RefreshPhase
  /-- The transaction that has written a row and not ended yet. -/
  locks : String → Option θ
  clock : Int
  rotations : List (String × String)
  presented : String → Nat

inductive RefreshStep (θ : Type) where
  | tick (elapsed : Nat)
  | begin (t : θ) (rth : String)
  | select (t : θ)
  | revokeOld (t : θ)
  | insertNew (t : θ) (newId newHash ip : String)
  | startSweep (t : θ)
  | sweep (t : θ) (id : String)
  | commit (t : θ)
  | rollback (t : θ)

section Race
variable {θ : Type} [DecidableEq θ]

def RefreshRace.goTo (s : RefreshRace θ) (t : θ) (phase : RefreshPhase) : RefreshRace θ :=
  { s with call := Function.update s.call t phase }

def RefreshRace.lock (s : RefreshRace θ) (t : θ) (id : String) : RefreshRace θ :=
  { s with locks := Function.update s.locks id (some t) }

/-- The end of a transaction. -/
def RefreshRace.finish (s : RefreshRace θ) (t : θ) : RefreshRace θ :=
  { s.goTo t .idle with locks := fun id => if s.locks id = some t then none else s.locks id }

/-- A call returns that was given the token of this session. -/
def RefreshRace.present (s : RefreshRace θ) (id : String) : RefreshRace θ :=
  { s with presented := Function.update s.presented id (s.presented id + 1) }

/-- No other transaction has written the row. -/
def RefreshRace.free (s : RefreshRace θ) (t : θ) (id : String) : Bool :=
  s.locks id = none || s.locks id = some t

/-- The first statement and what follows from its row. -/
def selectToken (s : RefreshRace θ) (t : θ) (rth : String) (now : Int) : RefreshRace θ :=
  match sessionByHash s.sessions rth with
  | none => s.goTo t .idle
  | some r =>
      if r.revokedAt.isSome then s.goTo t (.replayed r now)
      else if r.expiresAt < now then (s.goTo t .idle).present r.id
      else s.goTo t (.rotating r now)

/-- The rows that the update of a replay sees. -/
def sweepTargets (sessions : SessionTable) (adminUserId : Nat) : List String :=
  (sessions.rows.filter fun r => r.adminUserId = adminUserId && r.revokedAt.isNone).map
    AdminSession.id

/-- One row of that update: its condition is checked again on the row as it is now. -/
def sweepRow (s : RefreshRace θ) (t : θ) (old : AdminSession) (now : Int)
    (todo hit : List String) (id : String) : RefreshRace θ :=
  if s.free t id then
    if (s.sessions.row? id).any fun r =>
        r.adminUserId = old.adminUserId && r.revokedAt.isNone then
      (s.lock t id).goTo t (.sweeping old now (todo.filter (· ≠ id)) (hit ++ [id]))
    else s.goTo t (.sweeping old now (todo.filter (· ≠ id)) hit)
  else s

def commitRotation (s : RefreshRace θ) (t : θ) (old : AdminSession) (newId newHash ip : String)
    (now : Int) : RefreshRace θ :=
  match (revokeOld s.sessions old.id now).insert (old.successor newId newHash now ip) with
  | none => s.finish t
  | some sessions =>
      { (s.finish t).present old.id with
        sessions := sessions
        rotations := s.rotations ++ [(old.id, newId)] }

def commitSweep (s : RefreshRace θ) (t : θ) (old : AdminSession) (now : Int)
    (hit : List String) : RefreshRace θ :=
  { (s.finish t).present old.id with
    sessions := revokeWhere s.sessions (fun r => r.id ∈ hit) now }

def refreshStep (s : RefreshRace θ) : RefreshStep θ → RefreshRace θ
  | .tick elapsed => { s with clock := s.clock + elapsed }
  | .begin t rth =>
      match s.call t with
      | .idle => s.goTo t (.started rth s.clock)
      | _ => s
  | .select t =>
      match s.call t with
      | .started rth now => selectToken s t rth now
      | _ => s
  | .revokeOld t =>
      match s.call t with
      | .rotating old now =>
          if s.free t old.id then (s.lock t old.id).goTo t (.revokedOld old now) else s
      | _ => s
  | .insertNew t newId newHash ip =>
      match s.call t with
      | .revokedOld old now => s.goTo t (.inserted old newId newHash ip now)
      | _ => s
  | .startSweep t =>
      match s.call t with
      | .replayed old now =>
          s.goTo t (.sweeping old now (sweepTargets s.sessions old.adminUserId) [])
      | _ => s
  | .sweep t id =>
      match s.call t with
      | .sweeping old now todo hit =>
          if id ∈ todo then sweepRow s t old now todo hit id else s
      | _ => s
  | .commit t =>
      match s.call t with
      | .inserted old newId newHash ip now => commitRotation s t old newId newHash ip now
      | .sweeping old now [] hit => commitSweep s t old now hit
      | _ => s
  | .rollback t => s.finish t

/-- Any sessions, nobody under way. -/
def resting (sessions : SessionTable) (clock : Int) : RefreshRace θ where
  sessions := sessions
  call _ := .idle
  locks _ := none
  clock := clock
  rotations := []
  presented _ := 0

/-- A token has at most one successor, and once it has been presented twice no session that
descends from its own is live. -/
def OneTimeUse (s : RefreshRace θ) : Prop :=
  (∀ l ∈ s.rotations, ∀ m ∈ s.rotations, l.1 = m.1 → l.2 = m.2) ∧
  ∀ id, 2 ≤ s.presented id → ∀ d ∈ descendants s.rotations id, ∀ r ∈ s.sessions.rows,
    r.id = d → r.live s.clock = false

/-- The row a call has selected. -/
def RefreshPhase.session : RefreshPhase → Option AdminSession
  | .idle => none
  | .started _ _ => none
  | .rotating old _ => some old
  | .revokedOld old _ => some old
  | .inserted old _ _ _ _ => some old
  | .replayed old _ => some old
  | .sweeping old _ _ _ => some old

/-- The session that a call is replacing, from its update to its end. -/
def RefreshPhase.replaces : RefreshPhase → Option String
  | .revokedOld old _ => some old.id
  | .inserted old _ _ _ _ => some old.id
  | _ => none

/-- The session whose replay is being contained. -/
def RefreshPhase.replay : RefreshPhase → Option String
  | .replayed old _ => some old.id
  | .sweeping old _ _ _ => some old.id
  | _ => none

/-- The replayed session, the rows to visit and the rows written. -/
def RefreshPhase.sweep : RefreshPhase → Option (String × List String × List String)
  | .sweeping old _ todo hit => some (old.id, todo, hit)
  | _ => none

/-- The row that the next update of a call is to revoke, if it is a rotation. -/
def RefreshPhase.rotates : RefreshPhase → Option AdminSession
  | .rotating old _ => some old
  | _ => none

/-- The session whose replay a call has met and not begun to contain. -/
def RefreshPhase.replays : RefreshPhase → Option AdminSession
  | .replayed first _ => some first
  | _ => none

/-- The row that a call has replaced and will commit. -/
def RefreshPhase.succeeds : RefreshPhase → Option AdminSession
  | .inserted old _ _ _ _ => some old
  | _ => none

/-- A rotation's update meets its row unrevoked, and not in front of a replay that is still
to visit it; the update of a replay begins while no descendant of the replayed session is
being replaced; and a token that was refused is not rotated any more. -/
def OneAtATime (s : RefreshRace θ) : RefreshStep θ → Prop
  | .revokeOld t => ∀ old ∈ (s.call t).rotates, s.free t old.id = true →
      Unrevoked s.sessions old.id ∧ ∀ t', ∀ w ∈ (s.call t').sweep,
        old.id ∈ descendants s.rotations w.1 → old.id ∉ w.2.1
  | .startSweep t => ∀ first ∈ (s.call t).replays, ∀ t', ∀ id ∈ (s.call t').replaces,
      id ∉ descendants s.rotations first.id
  | .commit t => ∀ old ∈ (s.call t).succeeds, s.presented old.id = 0
  | _ => True

instance decidableOneAtATime [Fintype θ] (s : RefreshRace θ) :
    (a : RefreshStep θ) → Decidable (OneAtATime s a)
  | .revokeOld t => inferInstanceAs (Decidable (∀ old ∈ (s.call t).rotates,
      s.free t old.id = true → Unrevoked s.sessions old.id ∧ ∀ t', ∀ w ∈ (s.call t').sweep,
        old.id ∈ descendants s.rotations w.1 → old.id ∉ w.2.1))
  | .startSweep t => inferInstanceAs (Decidable (∀ first ∈ (s.call t).replays, ∀ t',
      ∀ id ∈ (s.call t').replaces, id ∉ descendants s.rotations first.id))
  | .commit t => inferInstanceAs (Decidable (∀ old ∈ (s.call t).succeeds,
      s.presented old.id = 0))
  | .tick _ => isTrue trivial
  | .begin _ _ => isTrue trivial
  | .select _ => isTrue trivial
  | .insertNew _ _ _ _ => isTrue trivial
  | .sweep _ _ => isTrue trivial
  | .rollback _ => isTrue trivial

variable {s : RefreshRace θ}

/-- What every call and every committed rotation knows of the table. -/
structure RefreshInv (s : RefreshRace θ) : Prop where
  started : ∀ t rth now, s.call t = .started rth now → now ≤ s.clock
  copied : ∀ t x, (s.call t).session = some x → adminOf s.sessions x.id = some x.adminUserId
  replaces : ∀ t id, (s.call t).replaces = some id →
    s.locks id = some t ∧ Unrevoked s.sessions id
  replay : ∀ t id, (s.call t).replay = some id → ¬ Unrevoked s.sessions id
  hit : ∀ t w, (s.call t).sweep = some w → ∀ id ∈ w.2.2, s.locks id = some t
  swept : ∀ t w, (s.call t).sweep = some w → ∀ d ∈ descendants s.rotations w.1,
    Unrevoked s.sessions d → d ∈ w.2.1 ∨ d ∈ w.2.2
  apart : ∀ t w, (s.call t).sweep = some w → ∀ t' id, (s.call t').replaces = some id →
    id ∉ descendants s.rotations w.1
  linked : Linked s.sessions s.rotations
  admin : ∀ l ∈ s.rotations, adminOf s.sessions l.1 = adminOf s.sessions l.2
  single : ∀ l ∈ s.rotations, ∀ m ∈ s.rotations, l.1 = m.1 → l.2 = m.2
  known : ∀ id, 0 < s.presented id → HasSession s.sessions id
  contained : ∀ id, 2 ≤ s.presented id → ∀ d ∈ descendants s.rotations id, ∀ r,
    s.sessions.row? d = some r → r.revokedAt = none → d = id ∧ r.expiresAt ≤ s.clock

section Phases
variable {phase : RefreshPhase} {id : String}

omit [DecidableEq θ] in
theorem replay_eq_some (h : phase.replay = some id) :
    ∃ old, phase.session = some old ∧ old.id = id := by
  cases phase with
  | replayed old now => exact ⟨old, rfl, Option.some.inj h⟩
  | sweeping old now todo hit => exact ⟨old, rfl, Option.some.inj h⟩
  | _ => cases h

theorem sweep_eq_some {w : String × List String × List String} (h : phase.sweep = some w) :
    phase.replay = some w.1 ∧ phase.replaces = none ∧ ∃ old, phase.session = some old ∧
      old.id = w.1 := by
  cases phase with
  | sweeping old now todo hit =>
      cases h
      exact ⟨rfl, rfl, old, rfl, rfl⟩
  | _ => cases h

theorem goTo_call {t t' : θ} {α : Type} {f : RefreshPhase → α} {x : α}
    (h : f ((s.goTo t phase).call t') = x) :
    (t' = t ∧ f phase = x) ∨ t' ≠ t ∧ f (s.call t') = x := by
  rw [RefreshRace.goTo] at h
  dsimp only at h
  by_cases ht : t' = t
  · rw [ht, Function.update_self] at h
    exact .inl ⟨ht, h⟩
  · rw [Function.update_of_ne ht] at h
    exact .inr ⟨ht, h⟩

theorem goTo_call_other {t t' : θ} {α : Type} {f : RefreshPhase → Option α} {x : α}
    (hnone : f phase = none) (h : f ((s.goTo t phase).call t') = some x) :
    t' ≠ t ∧ f (s.call t') = some x := by
  cases goTo_call h with
  | inl hnew =>
      rw [hnone] at hnew
      cases hnew.2
  | inr hold => exact hold

omit [DecidableEq θ] in
theorem presented_of_ne {k : String} (hne : k ≠ id) :
    (s.present id).presented k = s.presented k :=
  Function.update_of_ne hne _ _

end Phases

theorem single_concat {rotations : List (String × String)} {id newId : String}
    (hsingle : ∀ l ∈ rotations, ∀ m ∈ rotations, l.1 = m.1 → l.2 = m.2)
    (hnone : ∀ l ∈ rotations, l.1 ≠ id) :
    ∀ l ∈ rotations ++ [(id, newId)], ∀ m ∈ rotations ++ [(id, newId)], l.1 = m.1 → l.2 = m.2 := by
  intro l hl m hm heq
  cases List.mem_append.mp hl with
  | inl hlold =>
      cases List.mem_append.mp hm with
      | inl hmold => exact hsingle l hlold m hmold heq
      | inr hmlast =>
          rw [List.mem_singleton.mp hmlast] at heq
          exact absurd heq (hnone l hlold)
  | inr hllast =>
      rw [List.mem_singleton.mp hllast] at heq ⊢
      cases List.mem_append.mp hm with
      | inl hmold => exact absurd heq.symm (hnone m hmold)
      | inr hmlast => rw [List.mem_singleton.mp hmlast]

namespace RefreshInv

omit [DecidableEq θ] in
theorem admin_descendant (h : RefreshInv s) {id d : String}
    (hd : d ∈ descendants s.rotations id) : adminOf s.sessions d = adminOf s.sessions id :=
  descendants_induction (P := fun d => adminOf s.sessions d = adminOf s.sessions id) rfl
    (fun l hl heq => (h.admin l hl).symm.trans heq) d hd

omit [DecidableEq θ] in
theorem hasSession_of_session (h : RefreshInv s) {t : θ} {x : AdminSession}
    (hx : (s.call t).session = some x) : HasSession s.sessions x.id :=
  hasSession_of_adminOf (h.copied t x hx)

omit [DecidableEq θ] in
theorem oneTimeUse (h : RefreshInv s) : OneTimeUse s := by
  refine ⟨h.single, ?_⟩
  intro id hid d hd r hr hrd
  have hrow : s.sessions.row? d = some r := Table.row?_eq_some.mpr ⟨hr, hrd⟩
  rw [AdminSession.live]
  cases hrevoked : r.revokedAt with
  | some time => rfl
  | none =>
      have hexpired := (h.contained id hid d hd r hrow hrevoked).2
      simpa using hexpired

omit [DecidableEq θ] in
theorem tick (h : RefreshInv s) (elapsed : Nat) :
    RefreshInv { s with clock := s.clock + elapsed } where
  started t rth now ht := by
    have hle := h.started t rth now ht
    show now ≤ s.clock + elapsed
    omega
  copied := h.copied
  replaces := h.replaces
  replay := h.replay
  hit := h.hit
  swept := h.swept
  apart := h.apart
  linked := h.linked
  admin := h.admin
  single := h.single
  known := h.known
  contained id hid d hd r hr hrevoked := by
    obtain ⟨hd', hexpired⟩ := h.contained id hid d hd r hr hrevoked
    refine ⟨hd', ?_⟩
    show r.expiresAt ≤ s.clock + elapsed
    omega

theorem goTo (h : RefreshInv s) {t : θ} {phase : RefreshPhase}
    (hstarted : ∀ rth now, phase = .started rth now → now ≤ s.clock)
    (hcopied : ∀ x, phase.session = some x → adminOf s.sessions x.id = some x.adminUserId)
    (hreplaces : ∀ id, phase.replaces = some id → (s.call t).replaces = some id)
    (hreplay : ∀ id, phase.replay = some id → ¬ Unrevoked s.sessions id)
    (hsweep : phase.sweep = none) : RefreshInv (s.goTo t phase) where
  started t' rth now ht := by
    cases goTo_call (f := fun p => p) ht with
    | inl hnew => exact hstarted rth now hnew.2
    | inr hold => exact h.started t' rth now hold.2
  copied t' x hx := by
    cases goTo_call hx with
    | inl hnew => exact hcopied x hnew.2
    | inr hold => exact h.copied t' x hold.2
  replaces t' id hid := by
    cases goTo_call hid with
    | inl hnew =>
        rw [hnew.1]
        exact h.replaces t id (hreplaces id hnew.2)
    | inr hold => exact h.replaces t' id hold.2
  replay t' id hid := by
    cases goTo_call hid with
    | inl hnew => exact hreplay id hnew.2
    | inr hold => exact h.replay t' id hold.2
  hit t' w hw := h.hit t' w (goTo_call_other hsweep hw).2
  swept t' w hw := h.swept t' w (goTo_call_other hsweep hw).2
  apart t' w hw t'' id hid := by
    have hold := (goTo_call_other hsweep hw).2
    cases goTo_call hid with
    | inl hnew => exact h.apart t' w hold t id (hreplaces id hnew.2)
    | inr hother => exact h.apart t' w hold t'' id hother.2
  linked := h.linked
  admin := h.admin
  single := h.single
  known := h.known
  contained := h.contained

theorem goTo_idle (h : RefreshInv s) (t : θ) : RefreshInv (s.goTo t .idle) := by
  apply h.goTo
  · intro rth now heq
    cases heq
  · intro x hx
    cases hx
  · intro id hid
    cases hid
  · intro id hid
    cases hid
  · rfl

theorem finish (h : RefreshInv s) (t : θ) : RefreshInv (s.finish t) := by
  have hidle := h.goTo_idle t
  have hlocks : ∀ t' id, t' ≠ t → s.locks id = some t' → (s.finish t).locks id = some t' := by
    intro t' id hne hlock
    show (if s.locks id = some t then none else s.locks id) = some t'
    rw [hlock, if_neg]
    exact fun heq => hne (Option.some.inj heq)
  refine ⟨hidle.started, hidle.copied, ?_, hidle.replay, ?_, hidle.swept, hidle.apart,
    hidle.linked, hidle.admin, hidle.single, hidle.known, hidle.contained⟩
  · intro t' id hid
    have hold := goTo_call_other rfl hid
    obtain ⟨hlock, hunrevoked⟩ := h.replaces t' id hold.2
    exact ⟨hlocks t' id hold.1 hlock, hunrevoked⟩
  · intro t' w hw id hid
    have hold := goTo_call_other rfl hw
    exact hlocks t' id hold.1 (h.hit t' w hold.2 id hid)

theorem lock (h : RefreshInv s) {t : θ} {id : String} (hfree : s.free t id = true) :
    RefreshInv (s.lock t id) := by
  have hlocks : ∀ t' k, s.locks k = some t' → (s.lock t id).locks k = some t' := by
    intro t' k hlock
    show Function.update s.locks id (some t) k = some t'
    by_cases hk : k = id
    · rw [RefreshRace.free, ← hk, hlock] at hfree
      have heq : t' = t := by simpa using hfree
      rw [hk, Function.update_self, heq]
    · rw [Function.update_of_ne hk]
      exact hlock
  refine ⟨h.started, h.copied, ?_, h.replay, ?_, h.swept, h.apart, h.linked, h.admin, h.single,
    h.known, h.contained⟩
  · intro t' k hk
    obtain ⟨hlock, hunrevoked⟩ := h.replaces t' k hk
    exact ⟨hlocks t' k hlock, hunrevoked⟩
  · intro t' w hw k hk
    exact hlocks t' k (h.hit t' w hw k hk)

omit [DecidableEq θ] in
theorem refuse (h : RefreshInv s) {r : AdminSession} (hr : s.sessions.row? r.id = some r)
    (hrevoked : r.revokedAt = none) (hexpired : r.expiresAt ≤ s.clock) :
    RefreshInv (s.present r.id) := by
  refine ⟨h.started, h.copied, h.replaces, h.replay, h.hit, h.swept, h.apart, h.linked, h.admin,
    h.single, ?_, ?_⟩
  · intro id hid
    by_cases heq : id = r.id
    · rw [heq]
      exact ⟨r, hr⟩
    · rw [presented_of_ne heq] at hid
      exact h.known id hid
  · intro id hid d hd x hx hxrevoked
    by_cases heq : id = r.id
    · have hself : d = r.id := by
        rw [heq] at hd
        exact h.linked.eq_of_unrevoked ⟨r, hr, hrevoked⟩ hd
      change s.sessions.row? d = some x at hx
      rw [hself, hr, Option.some.injEq] at hx
      rw [heq, ← hx]
      exact ⟨hself, hexpired⟩
    · rw [presented_of_ne heq] at hid
      exact h.contained id hid d hd x hx hxrevoked

theorem select (h : RefreshInv s) {t : θ} {rth : String} {now : Int}
    (hstarted : s.call t = .started rth now) : RefreshInv (selectToken s t rth now) := by
  have hidle := h.goTo_idle t
  rw [selectToken]
  cases hfind : sessionByHash s.sessions rth with
  | none => exact hidle
  | some r =>
      have hmem : r ∈ s.sessions.rows := List.mem_of_find?_eq_some hfind
      have hrow : s.sessions.row? r.id = some r := Table.row?_eq_some.mpr ⟨hmem, rfl⟩
      have hadmin : adminOf s.sessions r.id = some r.adminUserId := by
        rw [adminOf, hrow]
        rfl
      by_cases hrevoked : r.revokedAt.isSome = true
      · simp only [if_pos hrevoked]
        apply h.goTo
        · intro rth now heq
          cases heq
        · intro x hx
          cases hx
          exact hadmin
        · intro id hid
          cases hid
        · intro id hid
          cases hid
          rw [unrevoked_iff_of_row hrow]
          intro hnone
          rw [hnone] at hrevoked
          cases hrevoked
        · rfl
      · simp only [if_neg hrevoked]
        by_cases hexpired : r.expiresAt < now
        · simp only [if_pos hexpired]
          have hle := h.started t rth now hstarted
          refine hidle.refuse hrow (by simpa using hrevoked) ?_
          show r.expiresAt ≤ s.clock
          omega
        · simp only [if_neg hexpired]
          apply h.goTo
          · intro rth now heq
            cases heq
          · intro x hx
            cases hx
            exact hadmin
          · intro id hid
            cases hid
          · intro id hid
            cases hid
          · rfl

theorem revokeOld (h : RefreshInv s) {t : θ} {old : AdminSession} {now : Int}
    (hrotating : s.call t = .rotating old now) (hfree : s.free t old.id = true)
    (hunrevoked : Unrevoked s.sessions old.id)
    (hpassed : ∀ t' w, (s.call t').sweep = some w → old.id ∈ descendants s.rotations w.1 →
      old.id ∉ w.2.1) :
    RefreshInv ((s.lock t old.id).goTo t (.revokedOld old now)) := by
  have hlock := h.lock hfree
  have hself : (s.lock t old.id).locks old.id = some t := Function.update_self ..
  have hfar : ∀ t' w, (s.call t').sweep = some w → old.id ∉ descendants s.rotations w.1 := by
    intro t' w hw hd
    cases h.swept t' w hw old.id hd hunrevoked with
    | inl htodo => exact hpassed t' w hw hd htodo
    | inr hhit =>
        have ht : t' = t := by
          have hlocked := h.hit t' w hw old.id hhit
          rw [RefreshRace.free, hlocked] at hfree
          simpa using hfree
        rw [ht, hrotating] at hw
        cases hw
  refine ⟨?_, ?_, ?_, ?_, ?_, ?_, ?_, h.linked, h.admin, h.single, h.known, h.contained⟩
  · intro t' rth now' ht
    cases goTo_call (f := fun p => p) ht with
    | inl hnew => cases hnew.2
    | inr hold => exact h.started t' rth now' hold.2
  · intro t' x hx
    cases goTo_call hx with
    | inl hnew =>
        cases hnew.2
        exact h.copied t old (by rw [hrotating]; rfl)
    | inr hold => exact h.copied t' x hold.2
  · intro t' id hid
    cases goTo_call hid with
    | inl hnew =>
        cases hnew.2
        rw [hnew.1]
        exact ⟨hself, hunrevoked⟩
    | inr hold => exact hlock.replaces t' id hold.2
  · intro t' id hid
    exact h.replay t' id (goTo_call_other rfl hid).2
  · intro t' w hw
    exact hlock.hit t' w (goTo_call_other rfl hw).2
  · intro t' w hw
    exact h.swept t' w (goTo_call_other rfl hw).2
  · intro t' w hw t'' id hid
    have hold := (goTo_call_other rfl hw).2
    cases goTo_call hid with
    | inl hnew =>
        cases hnew.2
        exact hfar t' w hold
    | inr hother => exact h.apart t' w hold t'' id hother.2

theorem sweeping (h : RefreshInv s) {t : θ} {old : AdminSession} {now : Int}
    {todo hit : List String} (hcopied : adminOf s.sessions old.id = some old.adminUserId)
    (hreplay : ¬ Unrevoked s.sessions old.id) (hhit : ∀ id ∈ hit, s.locks id = some t)
    (hswept : ∀ d ∈ descendants s.rotations old.id, Unrevoked s.sessions d → d ∈ todo ∨ d ∈ hit)
    (hapart : ∀ t' id, (s.call t').replaces = some id → id ∉ descendants s.rotations old.id) :
    RefreshInv (s.goTo t (.sweeping old now todo hit)) := by
  refine ⟨?_, ?_, ?_, ?_, ?_, ?_, ?_, h.linked, h.admin, h.single, h.known, h.contained⟩
  · intro t' rth now' ht
    cases goTo_call (f := fun p => p) ht with
    | inl hnew => cases hnew.2
    | inr hold => exact h.started t' rth now' hold.2
  · intro t' x hx
    cases goTo_call hx with
    | inl hnew =>
        cases hnew.2
        exact hcopied
    | inr hold => exact h.copied t' x hold.2
  · intro t' id hid
    exact h.replaces t' id (goTo_call_other rfl hid).2
  · intro t' id hid
    cases goTo_call hid with
    | inl hnew =>
        cases hnew.2
        exact hreplay
    | inr hold => exact h.replay t' id hold.2
  · intro t' w hw
    cases goTo_call hw with
    | inl hnew =>
        cases hnew.2
        rw [hnew.1]
        exact hhit
    | inr hold => exact h.hit t' w hold.2
  · intro t' w hw
    cases goTo_call hw with
    | inl hnew =>
        cases hnew.2
        exact hswept
    | inr hold => exact h.swept t' w hold.2
  · intro t' w hw t'' id hid
    have hother : (s.call t'').replaces = some id := (goTo_call_other rfl hid).2
    cases goTo_call hw with
    | inl hnew =>
        cases hnew.2
        exact hapart t'' id hother
    | inr hold => exact h.apart t' w hold.2 t'' id hother

theorem startSweep (h : RefreshInv s) {t : θ} {first : AdminSession} {now : Int}
    (hreplayed : s.call t = .replayed first now)
    (hapart : ∀ t' id, (s.call t').replaces = some id → id ∉ descendants s.rotations first.id) :
    RefreshInv
      (s.goTo t (.sweeping first now (sweepTargets s.sessions first.adminUserId) [])) := by
  have hcopied := h.copied t first (by rw [hreplayed]; rfl)
  refine h.sweeping hcopied (h.replay t first.id (by rw [hreplayed]; rfl)) ?_ ?_ hapart
  · intro id hid
    cases hid
  · intro d hd hunrevoked
    obtain ⟨r, hr, hnone⟩ := hunrevoked
    have hadmin := h.admin_descendant hd
    rw [hcopied, adminOf, hr, Option.map_some, Option.some.injEq] at hadmin
    obtain ⟨hmem, hid⟩ := Table.row?_eq_some.mp hr
    refine .inl (List.mem_map.mpr ⟨r, List.mem_filter.mpr ⟨hmem, ?_⟩, hid⟩)
    simp [hadmin, hnone]

theorem sweepRow (h : RefreshInv s) {t : θ} {old : AdminSession} {now : Int}
    {todo hit : List String} (hsweeping : s.call t = .sweeping old now todo hit) (id : String) :
    RefreshInv (Engramia.AdminAuth.sweepRow s t old now todo hit id) := by
  have hcopied := h.copied t old (by rw [hsweeping]; rfl)
  have hreplay := h.replay t old.id (by rw [hsweeping]; rfl)
  have hsweep : (s.call t).sweep = some (old.id, todo, hit) := by rw [hsweeping]; rfl
  have hhit := h.hit t _ hsweep
  have hswept := h.swept t _ hsweep
  have hapart := h.apart t _ hsweep
  rw [Engramia.AdminAuth.sweepRow]
  by_cases hfree : s.free t id = true
  · rw [if_pos hfree]
    by_cases hmatch : ((s.sessions.row? id).any fun r =>
        r.adminUserId = old.adminUserId && r.revokedAt.isNone) = true
    · rw [if_pos hmatch]
      have hlock := h.lock hfree
      refine hlock.sweeping hcopied hreplay ?_ ?_ hapart
      · intro k hk
        cases List.mem_append.mp hk with
        | inl hold => exact hlock.hit t _ hsweep k hold
        | inr hnew =>
            rw [List.mem_singleton.mp hnew]
            exact Function.update_self ..
      · intro d hd hunrevoked
        by_cases hdid : d = id
        · exact .inr (List.mem_append_right _ (List.mem_singleton.mpr hdid))
        · cases hswept d hd hunrevoked with
          | inl htodo => exact .inl (List.mem_filter.mpr ⟨htodo, by simpa using hdid⟩)
          | inr hold => exact .inr (List.mem_append_left _ hold)
    · rw [if_neg hmatch]
      refine h.sweeping hcopied hreplay hhit ?_ hapart
      intro d hd hunrevoked
      have hdid : d ≠ id := by
        intro heq
        obtain ⟨r, hr, hnone⟩ := hunrevoked
        have hadmin := h.admin_descendant hd
        rw [hcopied, adminOf, hr, Option.map_some, Option.some.injEq] at hadmin
        apply hmatch
        rw [← heq, hr]
        simp [hadmin, hnone]
      cases hswept d hd hunrevoked with
      | inl htodo => exact .inl (List.mem_filter.mpr ⟨htodo, by simpa using hdid⟩)
      | inr hold => exact .inr hold
  · rw [if_neg hfree]
    exact h

theorem commitRotation (h : RefreshInv s) {t : θ} {old : AdminSession}
    {newId newHash ip : String} {now : Int}
    (hinserted : s.call t = .inserted old newId newHash ip now)
    (hfirst : s.presented old.id = 0) :
    RefreshInv (Engramia.AdminAuth.commitRotation s t old newId newHash ip now) := by
  have hfinish := h.finish t
  rw [Engramia.AdminAuth.commitRotation]
  cases hinsert : (Engramia.AdminAuth.revokeOld s.sessions old.id now).insert
      (old.successor newId newHash now ip) with
  | none => exact hfinish
  | some sessions =>
      obtain ⟨hlocked, hunrevoked⟩ := h.replaces t old.id (by rw [hinserted]; rfl)
      have hadminOld := h.copied t old (by rw [hinserted]; rfl)
      have hnew := not_hasSession_of_rotation hinsert
      have hne : ∀ {id}, HasSession s.sessions id → id ≠ newId := by
        intro id hid heq
        exact hnew (heq ▸ hid)
      have hun : ∀ id, Unrevoked sessions id ↔
          (Unrevoked s.sessions id ∧ id ≠ old.id) ∨ id = newId := by
        intro id
        rw [unrevoked_insert hinsert rfl, unrevoked_revokeOld]
        rfl
      have hhas : ∀ id, HasSession sessions id ↔ HasSession s.sessions id ∨ id = newId := by
        intro id
        rw [hasSession_insert hinsert, Engramia.AdminAuth.revokeOld, hasSession_revokeWhere]
        rfl
      have hadmin : ∀ id, HasSession s.sessions id →
          adminOf sessions id = adminOf s.sessions id := by
        intro id hid
        rw [adminOf_insert hinsert, Engramia.AdminAuth.revokeOld, adminOf_revokeWhere]
        exact if_neg (hne hid)
      have hadminNew : adminOf sessions newId = some old.adminUserId := by
        rw [adminOf_insert hinsert]
        exact if_pos rfl
      have hdesc : ∀ id d, old.id ∉ descendants s.rotations id →
          d ∈ descendants (s.rotations ++ [(old.id, newId)]) id →
          d ∈ descendants s.rotations id := by
        intro id d hold hd
        cases mem_descendants_append.mp hd with
        | inl hd => exact hd
        | inr hd => exact absurd hd.1 hold
      have hother : ∀ {t' id}, ((s.finish t).call t').replaces = some id →
          t' ≠ t ∧ (s.call t').replaces = some id := fun hid => goTo_call_other rfl hid
      have hsweep : ∀ {t' w}, ((s.finish t).call t').sweep = some w →
          (s.call t').sweep = some w := fun hw => (goTo_call_other rfl hw).2
      refine ⟨hfinish.started, ?_, ?_, ?_, hfinish.hit, ?_, ?_,
        h.linked.rotate hunrevoked.hasSession hinsert, ?_, ?_, ?_, ?_⟩
      · intro t' x hx
        have hadminX := hfinish.copied t' x hx
        rw [← hadminX]
        exact hadmin x.id (hasSession_of_adminOf hadminX)
      · intro t' id hid
        obtain ⟨hlock, hunrevoked'⟩ := hfinish.replaces t' id hid
        refine ⟨hlock, (hun id).mpr (.inl ⟨hunrevoked', ?_⟩)⟩
        intro heq
        have hsame := (h.replaces t' id (hother hid).2).1
        rw [heq, hlocked, Option.some.injEq] at hsame
        exact (hother hid).1 hsame.symm
      · intro t' id hid hunrevoked'
        cases (hun id).mp hunrevoked' with
        | inl hold => exact hfinish.replay t' id hid hold.1
        | inr heq =>
            obtain ⟨x, hx, hxid⟩ := replay_eq_some (goTo_call_other rfl hid).2
            exact hne (hxid ▸ h.hasSession_of_session hx) heq
      · intro t' w hw d hd hunrevoked'
        have hwold := hsweep hw
        have hold := hdesc w.1 d (h.apart t' w hwold t old.id (by rw [hinserted]; rfl)) hd
        obtain ⟨-, -, x, hx, hxid⟩ := sweep_eq_some hwold
        have hhasd := h.linked.known_descendant (hxid ▸ h.hasSession_of_session hx) hold
        cases (hun d).mp hunrevoked' with
        | inl hunold => exact h.swept t' w hwold d hold hunold.1
        | inr heq => exact absurd heq (hne hhasd)
      · intro t' w hw t'' id hid hd
        have hwold := hsweep hw
        have hold := hdesc w.1 id (h.apart t' w hwold t old.id (by rw [hinserted]; rfl)) hd
        exact h.apart t' w hwold t'' id (hother hid).2 hold
      · intro l hl
        cases List.mem_append.mp hl with
        | inl hold =>
            obtain ⟨-, hfrom, hto⟩ := h.linked l hold
            show adminOf sessions l.1 = adminOf sessions l.2
            rw [hadmin _ hfrom, hadmin _ hto]
            exact h.admin l hold
        | inr hlast =>
            rw [List.mem_singleton.mp hlast]
            show adminOf sessions old.id = adminOf sessions newId
            rw [hadmin _ hunrevoked.hasSession, hadminNew]
            exact hadminOld
      · exact single_concat h.single fun l hl heq => (h.linked l hl).1 (heq ▸ hunrevoked)
      · intro id hid
        by_cases heq : id = old.id
        · rw [heq]
          exact (hhas _).mpr (.inl hunrevoked.hasSession)
        · have hbefore : 0 < s.presented id := by
            rw [← presented_of_ne heq]
            exact hid
          exact (hhas _).mpr (.inl (h.known id hbefore))
      · intro id hid d hd r hr hrevoked
        change 2 ≤ Function.update s.presented old.id (s.presented old.id + 1) id at hid
        by_cases heq : id = old.id
        · rw [heq, Function.update_self, hfirst] at hid
          omega
        · rw [Function.update_of_ne heq] at hid
          have hidhas := h.known id (by omega)
          cases mem_descendants_append.mp hd with
          | inl hd =>
              have hhasd := h.linked.known_descendant hidhas hd
              change sessions.row? d = some r at hr
              rw [row?_rotation hinsert, if_neg fun heq => hne hhasd heq.symm] at hr
              exact h.contained id hid d hd r (row?_of_revokeWhere hr hrevoked) hrevoked
          | inr hd =>
              obtain ⟨x, hx, hxrevoked⟩ := hunrevoked
              exact absurd (h.contained id hid old.id hd.1 x hx hxrevoked).1.symm heq

theorem commitSweep (h : RefreshInv s) {t : θ} {old : AdminSession} {now : Int}
    {hit : List String} (hsweeping : s.call t = .sweeping old now [] hit) :
    RefreshInv (Engramia.AdminAuth.commitSweep s t old now hit) := by
  have hfinish := h.finish t
  have hsweep : (s.call t).sweep = some (old.id, [], hit) := by rw [hsweeping]; rfl
  have hcopied := h.copied t old (by rw [hsweeping]; rfl)
  have hun : ∀ id, Unrevoked (revokeWhere s.sessions (fun r => r.id ∈ hit) now) id ↔
      Unrevoked s.sessions id ∧ id ∉ hit := by
    intro id
    rw [unrevoked_revokeWhere]
    constructor
    · intro ⟨r, hr, hrevoked, hmiss⟩
      refine ⟨⟨r, hr, hrevoked⟩, ?_⟩
      rw [← (Table.row?_eq_some.mp hr).2]
      exact of_decide_eq_false hmiss
    · intro ⟨⟨r, hr, hrevoked⟩, hmiss⟩
      refine ⟨r, hr, hrevoked, decide_eq_false ?_⟩
      rwa [(Table.row?_eq_some.mp hr).2]
  refine ⟨hfinish.started, ?_, ?_, ?_, hfinish.hit, ?_, hfinish.apart, h.linked.revokeWhere, ?_,
    h.single, ?_, ?_⟩
  · intro t' x hx
    have hadminX := hfinish.copied t' x hx
    rw [← hadminX]
    exact adminOf_revokeWhere
  · intro t' id hid
    obtain ⟨hlock, hunrevoked⟩ := hfinish.replaces t' id hid
    refine ⟨hlock, (hun id).mpr ⟨hunrevoked, ?_⟩⟩
    intro hmem
    have hmine := h.hit t _ hsweep id hmem
    have hold := goTo_call_other rfl hid
    have hsame := (h.replaces t' id hold.2).1
    rw [hmine, Option.some.injEq] at hsame
    exact hold.1 hsame.symm
  · intro t' id hid hunrevoked
    exact hfinish.replay t' id hid ((hun id).mp hunrevoked).1
  · intro t' w hw d hd hunrevoked
    exact hfinish.swept t' w hw d hd ((hun d).mp hunrevoked).1
  · intro l hl
    show adminOf (revokeWhere s.sessions _ now) l.1 = adminOf (revokeWhere s.sessions _ now) l.2
    rw [adminOf_revokeWhere, adminOf_revokeWhere]
    exact h.admin l hl
  · intro id hid
    apply hasSession_revokeWhere.mpr
    by_cases heq : id = old.id
    · rw [heq]
      exact hasSession_of_adminOf hcopied
    · have hbefore : 0 < s.presented id := by
        rw [← presented_of_ne heq]
        exact hid
      exact h.known id hbefore
  · intro id hid d hd r hr hrevoked
    change 2 ≤ Function.update s.presented old.id (s.presented old.id + 1) id at hid
    by_cases heq : id = old.id
    · rw [heq] at hd
      obtain ⟨hunrevoked, hmiss⟩ := (hun d).mp ⟨r, hr, hrevoked⟩
      cases h.swept t _ hsweep d hd hunrevoked with
      | inl htodo => cases htodo
      | inr hhit => exact absurd hhit hmiss
    · rw [Function.update_of_ne heq] at hid
      exact h.contained id hid d hd r (row?_of_revokeWhere hr hrevoked) hrevoked

theorem step (h : RefreshInv s) {a : RefreshStep θ} (hguard : OneAtATime s a) :
    RefreshInv (refreshStep s a) := by
  cases a with
  | tick elapsed => exact h.tick elapsed
  | rollback t => exact h.finish t
  | begin t rth =>
      rw [refreshStep]
      cases s.call t with
      | idle =>
          apply h.goTo
          · intro rth' now heq
            cases heq
            exact Int.le_refl _
          · intro x hx
            cases hx
          · intro id hid
            cases hid
          · intro id hid
            cases hid
          · rfl
      | _ => exact h
  | select t =>
      rw [refreshStep]
      cases hcall : s.call t with
      | started rth now => exact h.select hcall
      | _ => exact h
  | revokeOld t =>
      rw [refreshStep]
      cases hcall : s.call t with
      | rotating old now =>
          by_cases hfree : s.free t old.id = true
          · simp only [if_pos hfree]
            obtain ⟨hunrevoked, hpassed⟩ := hguard old (by rw [hcall]; rfl) hfree
            exact h.revokeOld hcall hfree hunrevoked hpassed
          · simp only [if_neg hfree]
            exact h
      | _ => exact h
  | insertNew t newId newHash ip =>
      rw [refreshStep]
      cases hcall : s.call t with
      | revokedOld old now =>
          apply h.goTo
          · intro rth' now' heq
            cases heq
          · intro x hx
            cases hx
            exact h.copied t old (by rw [hcall]; rfl)
          · intro id hid
            rw [hcall]
            exact hid
          · intro id hid
            cases hid
          · rfl
      | _ => exact h
  | startSweep t =>
      rw [refreshStep]
      cases hcall : s.call t with
      | replayed first now => exact h.startSweep hcall (hguard first (by rw [hcall]; rfl))
      | _ => exact h
  | sweep t id =>
      rw [refreshStep]
      cases hcall : s.call t with
      | sweeping old now todo hit =>
          by_cases hid : id ∈ todo
          · simp only [if_pos hid]
            exact h.sweepRow hcall id
          · simp only [if_neg hid]
            exact h
      | _ => exact h
  | commit t =>
      rw [refreshStep]
      cases hcall : s.call t with
      | inserted old newId newHash ip now =>
          exact h.commitRotation hcall (hguard old (by rw [hcall]; rfl))
      | sweeping old now todo hit =>
          cases todo with
          | nil => exact h.commitSweep hcall
          | cons id rest => exact h
      | _ => exact h

end RefreshInv

omit [DecidableEq θ] in
theorem refreshInv_resting (sessions : SessionTable) (clock : Int) :
    RefreshInv (resting sessions clock : RefreshRace θ) := by
  refine ⟨?_, ?_, ?_, ?_, ?_, ?_, ?_, ?_, ?_, ?_, ?_, ?_⟩
  · intro t rth now h
    cases h
  · intro t x h
    cases h
  · intro t id h
    cases h
  · intro t id h
    cases h
  · intro t w h
    cases h
  · intro t w h
    cases h
  · intro t w h
    cases h
  · intro l h
    cases h
  · intro l h
    cases h
  · intro l h
    cases h
  · intro id h
    exact absurd h (Nat.lt_irrefl 0)
  · intro id h
    change 2 ≤ 0 at h
    omega

end Race

/-- While every rotation writes a row that is not revoked and no rotation overlaps the
update of a replay, refresh tokens are one-time-use. -/
theorem one_time_use {θ : Type} [DecidableEq θ] (sessions : SessionTable) (clock : Int)
    (run : List (RefreshStep θ))
    (h : AllSteps refreshStep OneAtATime (resting sessions clock) run) :
    Always refreshStep OneTimeUse (resting sessions clock) run :=
  (always_of_allSteps (P := RefreshInv) (fun _ _ hs hguard => hs.step hguard)
    (refreshInv_resting sessions clock) h).mono fun _ hs => hs.oneTimeUse

section Sample

def firstSession : AdminSession where
  id := "session-1"
  adminUserId := 1
  refreshTokenHash := "token-1"
  issuedAt := 0
  expiresAt := refreshTokenTtl
  totpIssuedAt := 0
  userAgent := none
  ipAddress := none
  revokedAt := none

def oneSession : SessionTable := ⟨[firstSession], List.nodup_singleton _⟩

/-- A token is rotated, and then presented again. -/
def rotateThenReplay : List (RefreshStep Bool) :=
  [.begin true "token-1", .select true, .revokeOld true,
    .insertNew true "session-2" "token-2" "10.0.0.1", .commit true, .begin false "token-1",
    .select false, .startSweep false, .sweep false "session-2", .commit false]

theorem one_time_use_rotateThenReplay :
    Always refreshStep OneTimeUse (resting oneSession 0) rotateThenReplay :=
  one_time_use oneSession 0 rotateThenReplay (by decide +kernel)

/-- Both calls select the row before either of them revokes it. -/
def twoRotations : List (RefreshStep Bool) :=
  [.begin true "token-1", .begin false "token-1", .select true, .select false, .revokeOld true,
    .insertNew true "session-2" "token-2" "10.0.0.1", .commit true, .revokeOld false,
    .insertNew false "session-3" "token-3" "10.0.0.2", .commit false]

/-- One token, two successors. -/
theorem two_successors :
    ¬ Always refreshStep OneTimeUse (resting oneSession 0) twoRotations := by
  apply not_always_of_last
  intro h
  exact absurd h.1 (by decide +kernel)

/-- The update of a replay begins while a descendant's successor is not committed yet. -/
def missedSuccessor : List (RefreshStep Bool) :=
  [.begin true "token-1", .select true, .revokeOld true,
    .insertNew true "session-2" "token-2" "10.0.0.1", .commit true, .begin true "token-2",
    .select true, .revokeOld true, .insertNew true "session-3" "token-3" "10.0.0.1",
    .begin false "token-1", .select false, .startSweep false, .commit true,
    .sweep false "session-2", .commit false]

example : ¬ OneTimeUse (exec refreshStep (resting oneSession 0) missedSuccessor) := by
  intro h
  have hdead := h.2 "session-1" (by decide +kernel) "session-3" (by decide +kernel)
  revert hdead
  decide +kernel

end Sample

end Engramia.AdminAuth
