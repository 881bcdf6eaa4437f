import Engramia.Library.KeyedTable
import Engramia.Library.Lineage

/-!
The `admin_sessions` table and the statements that the admin authentication service runs
on it. A refresh token is known by its hash; times are microseconds.
-/
namespace Engramia.AdminAuth
open Engramia.Library

structure AdminSession where
  id : String
  adminUserId : Nat
  refreshTokenHash : String
  issuedAt : Int
  expiresAt : Int
  totpIssuedAt : Int
  userAgent : Option String
  ipAddress : Option String
  revokedAt : Option Int
deriving DecidableEq

abbrev SessionTable := Table AdminSession.id

/-- `_REFRESH_TOKEN_TTL_DAYS`. -/
def refreshTokenTtl : Int := 86400000000

/-- The test of `session_freshness`. -/
def AdminSession.live (r : AdminSession) (now : Int) : Bool :=
  r.revokedAt.isNone && decide (now < r.expiresAt)

/-- The row that `refresh` inserts: the freshness anchor is the old one. -/
def AdminSession.successor (old : AdminSession) (newId newHash : String) (now : Int)
    (ip : String) : AdminSession where
  id := newId
  adminUserId := old.adminUserId
  refreshTokenHash := newHash
  issuedAt := now
  expiresAt := now + refreshTokenTtl
  totpIssuedAt := old.totpIssuedAt
  userAgent := none
  ipAddress := some ip
  revokedAt := none

section Statements
variable (t : SessionTable)

/-- The row that a refresh token is found by. -/
def sessionByHash (rth : String) : Option AdminSession :=
  t.rows.find? fun r => r.refreshTokenHash = rth

/-- `UPDATE admin_sessions SET revoked_at = :ts WHERE …`. -/
def revokeWhere (p : AdminSession → Bool) (now : Int) : SessionTable :=
  t.update p (fun r => { r with revokedAt := some now }) fun _ => rfl

/-- The rotation's update, which does not look at `revoked_at`. -/
def revokeOld (id : String) (now : Int) : SessionTable :=
  revokeWhere t (fun r => r.id = id) now

/-- The update of a replay. -/
def revokeAll (adminUserId : Nat) (now : Int) : SessionTable :=
  revokeWhere t (fun r => r.adminUserId = adminUserId && r.revokedAt.isNone) now

/-- A session that is in the table and not revoked. -/
def Unrevoked (id : String) : Prop :=
  ∃ r, t.row? id = some r ∧ r.revokedAt = none

instance (id : String) : Decidable (Unrevoked t id) :=
  decidable_of_iff ((t.row? id).any fun r => r.revokedAt.isNone) (by simp [Unrevoked, Option.any_eq_true])

def HasSession (id : String) : Prop := ∃ r, t.row? id = some r

def adminOf (id : String) : Option Nat := (t.row? id).map AdminSession.adminUserId

variable {t} {p : AdminSession → Bool} {id : String} {now : Int}

theorem unrevoked_iff_of_row {r : AdminSession} (h : t.row? id = some r) :
    Unrevoked t id ↔ r.revokedAt = none := by
  constructor
  · intro ⟨x, hx, hrevoked⟩
    rw [h, Option.some.injEq] at hx
    rwa [hx]
  · intro hrevoked
    exact ⟨r, h, hrevoked⟩

theorem Unrevoked.hasSession (h : Unrevoked t id) : HasSession t id :=
  h.imp fun _ hr => hr.1

theorem row?_revokeWhere (p : AdminSession → Bool) (now : Int) (id : String) :
    (revokeWhere t p now).row? id =
      (t.row? id).map fun r => if p r then { r with revokedAt := some now } else r := by
  rw [revokeWhere, Table.row?_update]

theorem hasSession_revokeWhere : HasSession (revokeWhere t p now) id ↔ HasSession t id := by
  constructor
  · intro ⟨x, hx⟩
    rw [row?_revokeWhere] at hx
    obtain ⟨r, hr, -⟩ := Option.map_eq_some_iff.mp hx
    exact ⟨r, hr⟩
  · intro ⟨r, hr⟩
    rw [HasSession, row?_revokeWhere, hr]
    exact ⟨_, rfl⟩

theorem unrevoked_revokeWhere :
    Unrevoked (revokeWhere t p now) id ↔
      ∃ r, t.row? id = some r ∧ r.revokedAt = none ∧ p r = false := by
  constructor
  · intro ⟨x, hx, hrevoked⟩
    rw [row?_revokeWhere] at hx
    obtain ⟨r, hr, heq⟩ := Option.map_eq_some_iff.mp hx
    cases hp : p r with
    | true =>
        rw [hp, if_pos rfl] at heq
        rw [← heq] at hrevoked
        cases hrevoked
    | false =>
        rw [hp, if_neg Bool.false_ne_true] at heq
        exact ⟨r, hr, by rwa [heq], hp⟩
  · intro ⟨r, hr, hrevoked, hp⟩
    refine ⟨r, ?_, hrevoked⟩
    rw [row?_revokeWhere, hr, Option.map_some, hp, if_neg Bool.false_ne_true]

theorem unrevoked_revokeOld {old : String} :
    Unrevoked (revokeOld t old now) id ↔ Unrevoked t id ∧ id ≠ old := by
  rw [revokeOld, unrevoked_revokeWhere]
  constructor
  · intro ⟨r, hr, hrevoked, hp⟩
    refine ⟨⟨r, hr, hrevoked⟩, ?_⟩
    rw [← (Table.row?_eq_some.mp hr).2]
    exact of_decide_eq_false hp
  · intro ⟨⟨r, hr, hrevoked⟩, hne⟩
    refine ⟨r, hr, hrevoked, decide_eq_false ?_⟩
    rwa [(Table.row?_eq_some.mp hr).2]

theorem unrevoked_insert {t' : SessionTable} {new : AdminSession} (h : t.insert new = some t')
    (hnew : new.revokedAt = none) :
    Unrevoked t' id ↔ Unrevoked t id ∨ id = new.id := by
  have hfresh := Table.insert_fresh h
  rw [Unrevoked, Unrevoked, Table.row?_insert h]
  by_cases hid : new.id = id
  · rw [if_pos hid]
    exact iff_of_true ⟨new, rfl, hnew⟩ (.inr hid.symm)
  · rw [if_neg hid]
    exact (or_iff_left fun heq => hid heq.symm).symm

theorem hasSession_insert {t' : SessionTable} {new : AdminSession} (h : t.insert new = some t') :
    HasSession t' id ↔ HasSession t id ∨ id = new.id := by
  rw [HasSession, HasSession, Table.row?_insert h]
  by_cases hid : new.id = id
  · rw [if_pos hid]
    exact iff_of_true ⟨new, rfl⟩ (.inr hid.symm)
  · rw [if_neg hid]
    exact (or_iff_left fun heq => hid heq.symm).symm

theorem not_hasSession_of_insert {t' : SessionTable} {new : AdminSession}
    (h : t.insert new = some t') : ¬ HasSession t new.id := by
  intro ⟨r, hr⟩
  rw [Table.insert_fresh h] at hr
  cases hr

theorem hasSession_of_adminOf {uid : Nat} (h : adminOf t id = some uid) : HasSession t id := by
  obtain ⟨r, hr, -⟩ := Option.map_eq_some_iff.mp h
  exact ⟨r, hr⟩

theorem adminOf_revokeWhere : adminOf (revokeWhere t p now) id = adminOf t id := by
  rw [adminOf, adminOf, row?_revokeWhere, Option.map_map]
  apply congrArg (fun f => Option.map f (t.row? id))
  funext r
  rw [Function.comp_apply]
  cases p r with
  | true => rfl
  | false => rfl

theorem adminOf_insert {t' : SessionTable} {new : AdminSession} (h : t.insert new = some t') :
    adminOf t' id = if id = new.id then some new.adminUserId else adminOf t id := by
  rw [adminOf, adminOf, Table.row?_insert h]
  by_cases hid : new.id = id
  · rw [if_pos hid, if_pos hid.symm]
    rfl
  · rw [if_neg hid, if_neg fun heq => hid heq.symm]

theorem row?_of_revokeWhere {r : AdminSession} (h : (revokeWhere t p now).row? id = some r)
    (hr : r.revokedAt = none) : t.row? id = some r := by
  rw [row?_revokeWhere] at h
  obtain ⟨x, hx, heq⟩ := Option.map_eq_some_iff.mp h
  cases hp : p x with
  | true =>
      rw [hp, if_pos rfl] at heq
      rw [← heq] at hr
      cases hr
  | false =>
      rw [hp, if_neg Bool.false_ne_true] at heq
      rwa [← heq]

section Rotation
variable {t' : SessionTable} {r : AdminSession} {newId newHash ip : String}

theorem row?_rotation
    (h : (revokeOld t r.id now).insert (r.successor newId newHash now ip) = some t')
    (id : String) :
    t'.row? id =
      if newId = id then some (r.successor newId newHash now ip)
      else (revokeOld t r.id now).row? id :=
  Table.row?_insert h id

theorem not_hasSession_of_rotation
    (h : (revokeOld t r.id now).insert (r.successor newId newHash now ip) = some t') :
    ¬ HasSession t newId := by
  have hfresh := not_hasSession_of_insert h
  rwa [revokeOld, hasSession_revokeWhere] at hfresh

end Rotation

/-- Which session replaced which: what was replaced is revoked, and both are in the table. -/
def Linked (t : SessionTable) (rotations : List (String × String)) : Prop :=
  ∀ l ∈ rotations, ¬ Unrevoked t l.1 ∧ HasSession t l.1 ∧ HasSession t l.2

namespace Linked
variable {rotations : List (String × String)} {d : String}

theorem known_descendant (h : Linked t rotations) (hid : HasSession t id)
    (hd : d ∈ descendants rotations id) : HasSession t d :=
  descendants_induction (P := HasSession t) hid (fun l hl _ => (h l hl).2.2) d hd

theorem eq_of_unrevoked (h : Linked t rotations) (hid : Unrevoked t id)
    (hd : d ∈ descendants rotations id) : d = id :=
  eq_of_mem_descendants (fun l hl heq => (h l hl).1 (heq ▸ hid)) hd

theorem eq_of_unknown (h : Linked t rotations) (hid : ¬ HasSession t id)
    (hd : d ∈ descendants rotations id) : d = id :=
  eq_of_mem_descendants (fun l hl heq => hid (heq ▸ (h l hl).2.1)) hd

theorem mono {t' : SessionTable} (h : Linked t rotations)
    (hhas : ∀ id, HasSession t id → HasSession t' id)
    (hun : ∀ id, HasSession t id → Unrevoked t' id → Unrevoked t id) : Linked t' rotations := by
  intro l hl
  obtain ⟨hrevoked, hfrom, hto⟩ := h l hl
  exact ⟨fun hl' => hrevoked (hun _ hfrom hl'), hhas _ hfrom, hhas _ hto⟩

theorem revokeWhere (h : Linked t rotations) :
    Linked (Engramia.AdminAuth.revokeWhere t p now) rotations := by
  apply h.mono
  · intro id hid
    exact hasSession_revokeWhere.mpr hid
  · intro id _ hid
    obtain ⟨r, hr, hrevoked, -⟩ := unrevoked_revokeWhere.mp hid
    exact ⟨r, hr, hrevoked⟩

theorem insert {t' : SessionTable} {new : AdminSession} (h : Linked t rotations)
    (hinsert : t.insert new = some t') : Linked t' rotations := by
  have hnew := not_hasSession_of_insert hinsert
  apply h.mono
  · intro id hid
    exact (hasSession_insert hinsert).mpr (.inl hid)
  · intro id hid hun
    have hne : new.id ≠ id := fun heq => hnew (heq ▸ hid)
    rwa [Unrevoked, Table.row?_insert hinsert, if_neg hne] at hun

theorem rotate {t' : SessionTable} {r : AdminSession} {newId newHash ip : String}
    (h : Linked t rotations) (hr : HasSession t r.id)
    (hinsert : (revokeOld t r.id now).insert (r.successor newId newHash now ip) = some t') :
    Linked t' (rotations ++ [(r.id, newId)]) := by
  have hold : Linked t' rotations := h.revokeWhere.insert hinsert
  intro l hl
  cases List.mem_append.mp hl with
  | inl hl => exact hold l hl
  | inr hl =>
      have hhas : HasSession (revokeOld t r.id now) r.id := hasSession_revokeWhere.mpr hr
      have hne : r.id ≠ newId := by
        intro heq
        exact not_hasSession_of_rotation hinsert (heq ▸ hr)
      rw [List.mem_singleton.mp hl]
      refine ⟨?_, (hasSession_insert hinsert).mpr (.inl hhas),
        (hasSession_insert hinsert).mpr (.inr rfl)⟩
      intro hun
      cases (unrevoked_insert hinsert rfl).mp hun with
      | inl hun => exact (unrevoked_revokeOld.mp hun).2 rfl
      | inr heq => exact hne heq

end Linked

end Statements

end Engramia.AdminAuth
