import Engramia.Library.Double
import Engramia.Library.Run

/-!
The admin cleanup: the rows of a kind are counted, the count is compared with the one the
operator confirmed, and what the same condition selects then is deleted. All of it is one
transaction, whose clock stands still and whose statements each see what is committed before
them, so rows can arrive in between.
-/
namespace Engramia.Api
open Engramia.Library

section Definitions

inductive CleanupKind where
  | unverifiedUsers7d
  | unverifiedUsers14d
  | deletedAccountsGrace30d
  | expiredVerificationTokens
deriving DecidableEq, Repr

/-- A row of `cloud_users` or of `email_verification_tokens`, as far as a cleanup reads it.
Instants are in microseconds. -/
inductive CleanupRow where
  | user (provider : Option String) (emailVerified : Option Bool) (createdAt deletedAt : Option ℤ)
  | token (expiresAt : ℤ)
deriving DecidableEq, Repr

/-- `INTERVAL 'n days'` -/
def days (n : ℤ) : ℤ := n * 86400000000

/-- A column before an instant; a null never is. -/
def earlier (column : Option ℤ) (t : ℤ) : Bool := column.any fun c => decide (c < t)

def unverifiedUser (age now : ℤ) : CleanupRow → Bool
  | .user provider emailVerified createdAt _ =>
      provider == some "credentials" && emailVerified == some false &&
        earlier createdAt (now - days age)
  | .token _ => false

def deletedAccount (age now : ℤ) : CleanupRow → Bool
  | .user _ _ _ deletedAt => earlier deletedAt (now - days age)
  | .token _ => false

def expiredToken (now : ℤ) : CleanupRow → Bool
  | .user _ _ _ _ => false
  | .token expiresAt => expiresAt < now

/-- The condition of `_CLEANUP_DEFS` that counts the rows of a kind and deletes them. -/
def CleanupKind.selects (now : ℤ) : CleanupKind → CleanupRow → Bool
  | .unverifiedUsers7d => unverifiedUser 7 now
  | .unverifiedUsers14d => unverifiedUser 14 now
  | .deletedAccountsGrace30d => deletedAccount 30 now
  | .expiredVerificationTokens => expiredToken now

def CleanupKind.count (kind : CleanupKind) (now : ℤ) (rows : List CleanupRow) : ℕ :=
  rows.countP (kind.selects now)

def CleanupKind.delete (kind : CleanupKind) (now : ℤ) (rows : List CleanupRow) :
    List CleanupRow :=
  rows.filter fun row => !kind.selects now row

/-- `1.2`, in parts of `2 ^ 52`. -/
def oneAndAFifth : ℕ := halfEven (6 * 2 ^ 52) 5

/-- `count > x * 1.2`, where a product that is too large is infinite. -/
def exceedsByFifth (count x : ℕ) : Bool :=
  toDouble (x * oneAndAFifth) < doubleBound * 2 ^ 52 ∧
    toDouble (x * oneAndAFifth) < count * 2 ^ 52

/-- The drift guard; none where the confirmed count is too large for a float. -/
def drifted (confirmed current : ℕ) : Option Bool :=
  if confirmed = 0 then some false else (floatOf confirmed).map (exceedsByFifth current)

/-- The detail of the 409. -/
def driftDetail (confirmed current : ℕ) : String :=
  s!"Row count drifted from preview (confirmed={confirmed}, current={current}). " ++
    "Re-run preview and confirm again."

/-- How far `cleanup_execute` has come. One that failed has been rolled back. -/
inductive CleanupPhase where
  | counting
  | deleting
  | refused (detail : String)
  | failed
  | deleted (count : ℕ)
deriving DecidableEq, Repr

structure Cleanup where
  rows : List CleanupRow
  phase : CleanupPhase

/-- Another connection commits a row, or the handler comes to its next statement. -/
inductive CleanupStep where
  | insert (row : CleanupRow)
  | statement (fails : Bool)

section Steps
variable (kind : CleanupKind) (confirmed : ℕ) (now : ℤ)

/-- The count and the guard. -/
def countStatement (rows : List CleanupRow) : CleanupPhase :=
  match drifted confirmed (kind.count now rows) with
  | none => .failed
  | some true => .refused (driftDetail confirmed (kind.count now rows))
  | some false => .deleting

def cleanupStep (s : Cleanup) : CleanupStep → Cleanup
  | .insert row => { s with rows := s.rows ++ [row] }
  | .statement fails =>
      match s.phase with
      | .counting =>
          { s with phase := if fails then .failed else countStatement kind confirmed now s.rows }
      | .deleting =>
          if fails then { s with phase := .failed }
          else ⟨kind.delete now s.rows, .deleted (kind.count now s.rows)⟩
      | _ => s

/-- No more than a fifth beyond the confirmed count is deleted. -/
def DeletesConfirmed (s : Cleanup) : Prop :=
  ∀ n, s.phase = .deleted n → 5 * n ≤ 6 * confirmed

/-- The rows that arrive before the next statement. -/
def arriving : List CleanupStep → List CleanupRow
  | .insert row :: run => row :: arriving run
  | .statement _ :: _ => []
  | [] => []

/-- Whether the next statement fails, and what comes after it. -/
def nextStatement : List CleanupStep → Option (Bool × List CleanupStep)
  | .insert _ :: run => nextStatement run
  | .statement fails :: run => some (fails, run)
  | [] => none

/-- Nothing to delete where nothing was confirmed; else what is counted and what arrives
between the statements stays within the fifth, or the guard refuses it. -/
def StaysConfirmed (counted arrived : ℕ) : Prop :=
  (confirmed = 0 → counted = 0 ∧ arrived = 0) ∧
    (0 < confirmed → drifted confirmed counted = some false →
      5 * (counted + arrived) ≤ 6 * confirmed)

end Steps

end Definitions

section Guard

theorem oneAndAFifth_eq : oneAndAFifth = 5404319552844595 := by decide

theorem fifth_arith {x count p t : ℕ} (hp : p ≤ 2 ^ 50)
    (hhigh : x * oneAndAFifth < p * 2 ^ 53) (hup : 2 * t ≤ 2 * (x * oneAndAFifth) + p)
    (hdown : 2 * (count * 2 ^ 52) < 2 * (x * oneAndAFifth) + p → count * 2 ^ 52 ≤ t) :
    t < count * 2 ^ 52 ↔ 6 * x < 5 * count := by
  rw [oneAndAFifth_eq] at *
  constructor
  · intro hlt
    apply Nat.lt_of_not_le
    intro hle
    have hnear := hdown (by omega)
    omega
  · intro hlt
    omega

theorem exceedsByFifth_iff {count x : ℕ} (hpos : 0 < x) (hx : x < 2 ^ 50) :
    exceedsByFifth count x = true ↔ 6 * x < 5 * count := by
  have hne : x * oneAndAFifth ≠ 0 := Nat.mul_ne_zero (Nat.ne_of_gt hpos) (by decide)
  have hsize : x * oneAndAFifth < 2 ^ 103 := by
    rw [oneAndAFifth_eq]
    omega
  have hplaces : excess (x * oneAndAFifth) ≤ 50 := by
    have hlog := (Nat.log2_lt hne).mpr hsize
    rw [excess]
    omega
  have hhigh := (excess_bounds hne).1
  have hup := toDouble_le (x * oneAndAFifth)
  have hp : 2 ^ excess (x * oneAndAFifth) ≤ 2 ^ 50 := Nat.pow_le_pow_right (by decide) hplaces
  have hfinite : toDouble (x * oneAndAFifth) < doubleBound * 2 ^ 52 := by
    have hbound : 2 ^ 103 ≤ doubleBound := two_pow_le_bound (by decide)
    omega
  have hdown : 2 * (count * 2 ^ 52) < 2 * (x * oneAndAFifth) + 2 ^ excess (x * oneAndAFifth) →
      count * 2 ^ 52 ≤ toDouble (x * oneAndAFifth) := by
    have hsplit : count * 2 ^ 52 = count * 2 ^ (52 - excess (x * oneAndAFifth)) *
        2 ^ excess (x * oneAndAFifth) := by
      rw [Nat.mul_assoc, ← Nat.pow_add, Nat.sub_add_cancel (Nat.le_trans hplaces (by decide))]
    rw [hsplit]
    exact le_toDouble
  rw [exceedsByFifth, decide_eq_true_eq, and_iff_right hfinite]
  exact fifth_arith hp hhigh hup hdown

theorem drifted_eq {confirmed current : ℕ} (hpos : 0 < confirmed) (hsmall : confirmed < 2 ^ 50) :
    drifted confirmed current = some (decide (6 * confirmed < 5 * current)) := by
  have hfloat : floatOf confirmed = some confirmed := floatOf_of_lt (by omega)
  have hexact : exceedsByFifth current confirmed = decide (6 * confirmed < 5 * current) := by
    rw [Bool.eq_iff_iff, exceedsByFifth_iff hpos hsmall, decide_eq_true_eq]
  rw [drifted, if_neg (Nat.ne_of_gt hpos), hfloat, Option.map_some, hexact]

end Guard

section Runs
variable {kind : CleanupKind} {confirmed : ℕ} {now : ℤ} {rows : List CleanupRow}
variable {run : List CleanupStep}

theorem CleanupKind.count_append (rows' : List CleanupRow) :
    kind.count now (rows ++ rows') = kind.count now rows + kind.count now rows' :=
  List.countP_append

theorem always_over {phase : CleanupPhase} (hcounting : phase ≠ .counting)
    (hdeleting : phase ≠ .deleting) :
    Always (cleanupStep kind confirmed now) (DeletesConfirmed confirmed) ⟨rows, phase⟩ run ↔
      DeletesConfirmed confirmed ⟨rows, phase⟩ := by
  induction run generalizing rows with
  | nil => exact Iff.rfl
  | cons a run ih =>
      rw [Always, and_iff_left_of_imp]
      intro hbound
      cases a with
      | insert row => exact ih.mpr hbound
      | statement fails =>
          cases phase with
          | counting => exact absurd rfl hcounting
          | deleting => exact absurd rfl hdeleting
          | refused _ | failed | deleted _ => exact ih.mpr hbound

theorem always_failed :
    Always (cleanupStep kind confirmed now) (DeletesConfirmed confirmed) ⟨rows, .failed⟩ run :=
  (always_over (by decide) (by decide)).mpr fun _ h => by cases h

theorem always_refused (detail : String) :
    Always (cleanupStep kind confirmed now) (DeletesConfirmed confirmed) ⟨rows, .refused detail⟩
      run :=
  (always_over (fun h => by cases h) fun h => by cases h).mpr fun _ h => by cases h

theorem always_deleting :
    Always (cleanupStep kind confirmed now) (DeletesConfirmed confirmed) ⟨rows, .deleting⟩ run ↔
      ∀ rest, nextStatement run = some (false, rest) →
        5 * kind.count now (rows ++ arriving run) ≤ 6 * confirmed := by
  have hopen : DeletesConfirmed confirmed ⟨rows, .deleting⟩ := fun _ h => by cases h
  induction run generalizing rows with
  | nil => simp [Always, hopen, nextStatement]
  | cons a run ih =>
      rw [Always, and_iff_right hopen]
      cases a with
      | insert row =>
          rw [nextStatement, arriving, List.append_cons]
          exact ih fun _ h => by cases h
      | statement fails =>
          cases fails with
          | true => simp [cleanupStep, always_failed, nextStatement]
          | false =>
              rw [nextStatement, arriving, List.append_nil]
              refine (always_over (fun h => by cases h) fun h => by cases h).trans ?_
              constructor
              · intro hbound rest _
                exact hbound _ rfl
              · intro hall n hn
                cases hn
                exact hall run rfl

theorem always_counting :
    Always (cleanupStep kind confirmed now) (DeletesConfirmed confirmed) ⟨rows, .counting⟩ run ↔
      ∀ between, nextStatement run = some (false, between) →
        drifted confirmed (kind.count now (rows ++ arriving run)) = some false →
        ∀ rest, nextStatement between = some (false, rest) →
          5 * kind.count now (rows ++ arriving run ++ arriving between) ≤ 6 * confirmed := by
  have hopen : DeletesConfirmed confirmed ⟨rows, .counting⟩ := fun _ h => by cases h
  induction run generalizing rows with
  | nil => simp [Always, hopen, nextStatement]
  | cons a run ih =>
      rw [Always, and_iff_right hopen]
      cases a with
      | insert row =>
          rw [nextStatement, arriving, List.append_cons]
          exact ih fun _ h => by cases h
      | statement fails =>
          cases fails with
          | true => simp [cleanupStep, always_failed, nextStatement]
          | false =>
              rw [nextStatement, arriving, List.append_nil]
              rw [cleanupStep, if_neg Bool.false_ne_true, countStatement]
              cases hguard : drifted confirmed (kind.count now rows) with
              | none => simp [always_failed]
              | some refused =>
                  cases refused with
                  | true =>
                      refine iff_of_true (always_refused _) ?_
                      intro between _ hpassed
                      cases hpassed
                  | false =>
                      refine always_deleting.trans ?_
                      constructor
                      · intro hdelete between hbetween _ rest hrest
                        cases hbetween
                        exact hdelete rest hrest
                      · intro hall rest hrest
                        exact hall run rfl rfl rest hrest

theorem cleanup_bounded_iff (kind : CleanupKind) (confirmed : ℕ) (now : ℤ)
    (rows : List CleanupRow) (run : List CleanupStep) :
    Always (cleanupStep kind confirmed now) (DeletesConfirmed confirmed) ⟨rows, .counting⟩ run ↔
      ∀ between rest, nextStatement run = some (false, between) →
        nextStatement between = some (false, rest) →
        StaysConfirmed confirmed (kind.count now (rows ++ arriving run))
          (kind.count now (arriving between)) := by
  rw [always_counting]
  simp only [CleanupKind.count_append]
  constructor
  · intro h between rest hcount hdelete
    constructor
    · intro hzero
      subst hzero
      have hbound := h between hcount (if_pos rfl) rest hdelete
      omega
    · intro _ hpassed
      exact h between hcount hpassed rest hdelete
  · intro h between hcount hpassed rest hdelete
    have hstays := h between rest hcount hdelete
    by_cases hzero : confirmed = 0
    · have hnone := hstays.1 hzero
      omega
    · exact hstays.2 (Nat.pos_of_ne_zero hzero) hpassed

/-- A user who signed up eight days ago goes, though no deletion was confirmed. -/
theorem nothing_confirmed_one_deleted :
    ¬ ∀ (kind : CleanupKind) (confirmed : ℕ) (now : ℤ) (rows : List CleanupRow)
      (run : List CleanupStep),
      Always (cleanupStep kind confirmed now) (DeletesConfirmed confirmed) ⟨rows, .counting⟩
        run := by
  intro h
  have hlast := (h .unverifiedUsers7d 0 (days 8)
    [.user (some "credentials") (some false) (some 0) none]
    [.statement false, .statement false]).last
  exact absurd (hlast 1 rfl) (by decide)

/-- A row that is no older than the transaction. -/
def CleanupRow.Fresh (now : ℤ) : CleanupRow → Prop
  | .user _ _ createdAt deletedAt => (∀ c ∈ createdAt, now ≤ c) ∧ ∀ c ∈ deletedAt, now ≤ c
  | .token expiresAt => now ≤ expiresAt

theorem earlier_eq_false {column : Option ℤ} {age : ℤ} (hage : 0 ≤ age)
    (h : ∀ c ∈ column, now ≤ c) : earlier column (now - days age) = false := by
  cases column with
  | none => rfl
  | some c =>
      have hc := h c rfl
      rw [earlier, Option.any_some, decide_eq_false_iff_not, days]
      omega

theorem not_selected_of_fresh {row : CleanupRow} (h : row.Fresh now) :
    kind.selects now row = false := by
  cases row with
  | user provider emailVerified createdAt deletedAt =>
      cases kind with
      | unverifiedUsers7d =>
          rw [CleanupKind.selects, unverifiedUser, earlier_eq_false (by decide) h.1, Bool.and_false]
      | unverifiedUsers14d =>
          rw [CleanupKind.selects, unverifiedUser, earlier_eq_false (by decide) h.1, Bool.and_false]
      | deletedAccountsGrace30d => exact earlier_eq_false (by decide) h.2
      | expiredVerificationTokens => rfl
  | token expiresAt =>
      cases kind with
      | unverifiedUsers7d | unverifiedUsers14d | deletedAccountsGrace30d => rfl
      | expiredVerificationTokens => exact decide_eq_false (Int.not_lt.mpr h)

theorem cleanup_bounded_of_fresh (hpos : 0 < confirmed) (hsmall : confirmed < 2 ^ 50)
    (hfresh : ∀ between, nextStatement run = some (false, between) →
      ∀ row ∈ arriving between, row.Fresh now) :
    Always (cleanupStep kind confirmed now) (DeletesConfirmed confirmed) ⟨rows, .counting⟩
      run := by
  rw [always_counting]
  intro between hcount hpassed rest _
  have hnone : kind.count now (arriving between) = 0 := by
    rw [CleanupKind.count, List.countP_eq_zero]
    intro row hrow
    rw [not_selected_of_fresh (hfresh between hcount row hrow)]
    exact Bool.false_ne_true
  rw [drifted_eq hpos hsmall, Option.some_inj, decide_eq_false_iff_not, Nat.not_lt] at hpassed
  rw [CleanupKind.count_append, hnone, Nat.add_zero]
  exact hpassed

end Runs

end Engramia.Api
