import Engramia.Credentials.Slots
import Engramia.Credentials.Providers
import Engramia.Library.Run
import Engramia.Library.Tally

/-!
The status of a credential. Creating and revoking are one statement each; a
validation and a resolve read the row first and write by its id later, so any
number of them may be between the two. The status is what the last write says.

The secrets of a row are told apart by their place in the list of those that
were supplied for it. The state records that list, which of them each row
holds, and how many had been supplied when the row was last revoked.
-/
namespace Engramia.Credentials

open Engramia.Library

/-- What a validation or a resolve has read and does next; with the row goes the place of
the secret it held. -/
inductive CheckPhase (B : Type) where
  | idle
  | validating (row : StoredCredential B) (place : Nat)
  | resolving (row : StoredCredential B) (place : Nat)
  | undecryptable (row : StoredCredential B) (place : Nat)
  | pinging (row : StoredCredential B) (place : Nat)
  | rejected (row : StoredCredential B)
  | accepted (row : StoredCredential B) (place : Nat)
  | reviving (row : StoredCredential B) (place : Nat)

structure Lifecycle (B θ : Type) where
  rows : CredentialTable B
  check : θ → CheckPhase B
  supplied : String → List B
  /-- The place of the secret a row holds. -/
  holds : String → Nat
  /-- The secrets before this place were supplied before the row was last revoked. -/
  revokedBelow : String → Nat

inductive LifecycleStep (B θ : Type) where
  | create (u : Upsert B)
  | markValidated (id : String) (now : Int)
  | revoke (tenantId id : String) (now : Int)
  | readForValidation (t : θ) (tenantId id : String)
  | readActive (t : θ) (tenantId : String) (purpose : Purpose)
  | readFallback (t : θ) (tenantId id : String)
  | decrypt (t : θ) (backendDown : Bool)
  | ping (t : θ) (accepted : Bool)
  | write (t : θ) (newId : String) (now : Int)

section Steps
variable {B θ : Type} [DecidableEq θ]
  (decrypt : String → Provider → Purpose → B → Option String)

def Lifecycle.goTo (s : Lifecycle B θ) (t : θ) (phase : CheckPhase B) : Lifecycle B θ :=
  { s with check := Function.update s.check t phase }

/-- The upsert of a validation, with all that the row it read has. -/
def revival (row : StoredCredential B) (newId : String) (now : Int) : Upsert B where
  tenantId := row.tenantId
  provider := row.provider
  purpose := row.purpose
  blob := row.blob
  baseUrl := row.baseUrl
  defaultModel := row.defaultModel
  defaultEmbedModel := row.defaultEmbedModel
  newId := newId
  now := now

/-- A `POST` supplies a secret. -/
def Lifecycle.create (s : Lifecycle B θ) (u : Upsert B) : Lifecycle B θ :=
  match upsert s.rows u with
  | none => s
  | some (rows, id) =>
      { s with
        rows := rows
        supplied := Function.update s.supplied id (s.supplied id ++ [u.blob])
        holds := Function.update s.holds id (s.supplied id).length }

/-- A validation writes the secret back that it has read. -/
def Lifecycle.revive (s : Lifecycle B θ) (row : StoredCredential B) (place : Nat)
    (newId : String) (now : Int) : Lifecycle B θ :=
  match upsert s.rows (revival row newId now) with
  | none => s
  | some (rows, id) => { s with rows := rows, holds := Function.update s.holds id place }

def Lifecycle.revoke (s : Lifecycle B θ) (tenantId id : String) (now : Int) : Lifecycle B θ :=
  if s.rows.rows.any (revocable tenantId id) then
    { s with
      rows := Credentials.revoke s.rows tenantId id now
      revokedBelow := Function.update s.revokedBelow id (s.supplied id).length }
  else s

def Lifecycle.read (s : Lifecycle B θ) (t : θ) (phase : StoredCredential B → Nat → CheckPhase B) :
    Option (StoredCredential B) → Lifecycle B θ
  | some row => s.goTo t (phase row (s.holds row.id))
  | none => s

/-- A secret that does not decrypt is marked by both; a backend that is down or not
configured, only by a validation. -/
def afterDecrypt (backendDown : Bool) : CheckPhase B → CheckPhase B
  | .validating row place =>
      if backendDown then .undecryptable row place
      else
        match row.plaintext decrypt with
        | some _ => .pinging row place
        | none => .undecryptable row place
  | .resolving row place =>
      if backendDown then .idle
      else
        match row.plaintext decrypt with
        | some _ => .idle
        | none => .undecryptable row place
  | phase => phase

def afterPing (accepted : Bool) : CheckPhase B → CheckPhase B
  | .pinging row place => if accepted then .accepted row place else .rejected row
  | phase => phase

/-- The next statement of a validation or a resolve. -/
def Lifecycle.write (s : Lifecycle B θ) (t : θ) (newId : String) (now : Int) : Lifecycle B θ :=
  match s.check t with
  | .undecryptable row _ => { s with rows := markInvalid s.rows row.id now }.goTo t .idle
  | .rejected row => { s with rows := markInvalid s.rows row.id now }.goTo t .idle
  | .accepted row place =>
      { s with rows := markValidated s.rows row.id now }.goTo t
        (if row.status = CredentialStatus.active then .idle else .reviving row place)
  | .reviving row place => (s.revive row place newId now).goTo t .idle
  | _ => s

def lifecycleStep (s : Lifecycle B θ) : LifecycleStep B θ → Lifecycle B θ
  | .create u => s.create u
  | .markValidated id now => { s with rows := markValidated s.rows id now }
  | .revoke tenantId id now => s.revoke tenantId id now
  | .readForValidation t tenantId id => s.read t .validating (getById s.rows tenantId id)
  | .readActive t tenantId purpose =>
      s.read t .resolving (getActiveForPurpose s.rows tenantId purpose)
  | .readFallback t tenantId id =>
      s.read t .resolving ((getById s.rows tenantId id).filter fun r => r.status = .active)
  | .decrypt t backendDown => s.goTo t (afterDecrypt decrypt backendDown (s.check t))
  | .ping t accepted => s.goTo t (afterPing accepted (s.check t))
  | .write t newId now => s.write t newId now

/-- No row yet. -/
def noLifecycle : Lifecycle B θ where
  rows := noCredentials
  check _ := .idle
  supplied _ := []
  holds _ := 0
  revokedBelow _ := 0

/-- The secret of every active row was supplied after the row was last revoked. -/
def RevokedStaysOut (s : Lifecycle B θ) : Prop :=
  ∀ r ∈ s.rows.rows, r.status = .active → s.revokedBelow r.id ≤ s.holds r.id

instance (s : Lifecycle B θ) : Decidable (RevokedStaysOut s) :=
  inferInstanceAs (Decidable (∀ r ∈ s.rows.rows, _))

/-- The row and the secret a validation writes back in a step. -/
def revived (s : Lifecycle B θ) : LifecycleStep B θ → Option (StoredCredential B × Nat)
  | .write t _ _ =>
      match s.check t with
      | .reviving row place => some (row, place)
      | _ => none
  | _ => none

/-- The row a step marks because its secret did not decrypt. -/
def markedUndecryptable (s : Lifecycle B θ) :
    LifecycleStep B θ → Option (StoredCredential B × Nat)
  | .write t _ _ =>
      match s.check t with
      | .undecryptable row place => some (row, place)
      | _ => none
  | _ => none

/-- A validation writes back only a secret supplied after the row was last revoked. -/
def RevivesUnrevoked (s : Lifecycle B θ) (a : LifecycleStep B θ) : Prop :=
  ∀ x ∈ revived s a, s.revokedBelow x.1.id ≤ x.2

/-- A row is marked for a secret that does not decrypt while it has that very secret. -/
def MarksOwnSecret (s : Lifecycle B θ) (a : LifecycleStep B θ) : Prop :=
  ∀ x ∈ markedUndecryptable s a, ∀ r ∈ s.rows.rows, r.id = x.1.id → r.blob = x.1.blob

instance [DecidableEq B] (s : Lifecycle B θ) (a : LifecycleStep B θ) :
    Decidable (MarksOwnSecret s a) :=
  inferInstanceAs (Decidable (∀ x ∈ markedUndecryptable s a, _))

/-- No `POST` has replaced the secret since it was read. -/
def MarksUnreplaced (s : Lifecycle B θ) (a : LifecycleStep B θ) : Prop :=
  ∀ x ∈ markedUndecryptable s a, s.holds x.1.id = x.2

/-- Every encryption is under a nonce of its own. -/
def SuppliesFresh (s : Lifecycle B θ) : LifecycleStep B θ → Prop
  | .create u => ∀ id, u.blob ∉ s.supplied id
  | _ => True

end Steps

section Secrets
variable {B θ : Type} {s : Lifecycle B θ}

/-- The row that has been read, with the place of its secret, when a later write needs it. -/
def CheckPhase.secret : CheckPhase B → Option (StoredCredential B × Nat)
  | .validating row place => some (row, place)
  | .resolving row place => some (row, place)
  | .undecryptable row place => some (row, place)
  | .pinging row place => some (row, place)
  | .accepted row place => some (row, place)
  | .reviving row place => some (row, place)
  | .idle => none
  | .rejected _ => none

/-- What is known of the secrets: where each is in its list, in the rows and in what has
been read of them. -/
structure Kept (s : Lifecycle B θ) : Prop where
  slots : OneRowPerSlot s.rows
  held : ∀ r ∈ s.rows.rows, (s.supplied r.id)[s.holds r.id]? = some r.blob
  exists_row : ∀ t row place, (s.check t).secret = some (row, place) →
    ∃ r ∈ s.rows.rows, r.id = row.id ∧ r.slot = row.slot
  carried : ∀ t row place, (s.check t).secret = some (row, place) →
    (s.supplied row.id)[place]? = some row.blob
  revoked_le : ∀ id, s.revokedBelow id ≤ (s.supplied id).length

theorem kept_noLifecycle : Kept (noLifecycle : Lifecycle B θ) where
  slots := oneRowPerSlot_noCredentials
  held r hr := by cases hr
  exists_row t row place h := by cases h
  carried t row place h := by cases h
  revoked_le _ := Nat.le_refl 0

theorem Kept.update (h : Kept s) (p : StoredCredential B → Bool)
    {f : StoredCredential B → StoredCredential B} (hid : ∀ r, (f r).id = r.id)
    (hslot : ∀ r, (f r).slot = r.slot) (hblob : ∀ r, (f r).blob = r.blob) :
    Kept { s with rows := s.rows.update p f hid } where
  slots := h.slots.update hid hslot
  held r' hr' := by
    cases mem_updateWhere_cases hr' with
    | inl hnew =>
        obtain ⟨r, hr, -, rfl⟩ := hnew
        rw [hid, hblob]
        exact h.held r hr
    | inr hold => exact h.held r' hold.1
  exists_row t row place hsecret := by
    obtain ⟨r, hr, hrow, hsame⟩ := h.exists_row t row place hsecret
    refine ⟨_, mem_updateWhere.mpr ⟨r, hr, rfl⟩, ?_⟩
    split
    · exact ⟨(hid r).trans hrow, (hslot r).trans hsame⟩
    · exact ⟨hrow, hsame⟩
  carried := h.carried
  revoked_le := h.revoked_le

theorem Kept.upsert (h : Kept s) {u : Upsert B} {rows : CredentialTable B} {id : String}
    (hup : upsert s.rows u = some (rows, id)) {supplied : String → List B}
    {holds : String → Nat}
    (hkeep : ∀ (id' : String) (place : Nat) (b : B),
      (s.supplied id')[place]? = some b → (supplied id')[place]? = some b)
    (hlen : ∀ id', (s.supplied id').length ≤ (supplied id').length)
    (hself : (supplied id)[holds id]? = some u.blob)
    (hother : ∀ id', id' ≠ id → holds id' = s.holds id') :
    Kept { s with rows := rows, supplied := supplied, holds := holds } where
  slots := h.slots.upsert hup
  held r hr := by
    cases (mem_upsert h.slots hup).mp hr with
    | inl hnew =>
        have hid : r.id = id := by rw [hnew]; exact Upsert.written_id h.slots hup
        have hblob : r.blob = u.blob := by rw [hnew]; exact u.written_blob _
        rw [hid, hblob]
        exact hself
    | inr hold =>
        have hheld := hkeep _ _ _ (h.held r hold.1)
        rw [← hother r.id hold.2] at hheld
        exact hheld
  exists_row t row place hsecret := by
    obtain ⟨r, hr, hrow, hsame⟩ := h.exists_row t row place hsecret
    obtain ⟨r', hr', hid, hslot⟩ := upsert_keeps_slot h.slots hup hr
    exact ⟨r', hr', hid.trans hrow, hslot.trans hsame⟩
  carried t row place hsecret := hkeep _ _ _ (h.carried t row place hsecret)
  revoked_le id' := Nat.le_trans (h.revoked_le id') (hlen id')

theorem Kept.create (h : Kept s) (u : Upsert B) : Kept (s.create u) := by
  rw [Lifecycle.create]
  cases hup : Credentials.upsert s.rows u with
  | none => exact h
  | some result =>
      obtain ⟨rows, id⟩ := result
      apply h.upsert hup
      · intro id' place b hplace
        by_cases hid : id' = id
        · subst hid
          rw [Function.update_self]
          exact getElem?_append_of_some hplace _
        · rw [Function.update_of_ne hid]
          exact hplace
      · intro id'
        by_cases hid : id' = id
        · subst hid
          rw [Function.update_self, List.length_append]
          exact Nat.le_add_right _ _
        · rw [Function.update_of_ne hid]
      · rw [Function.update_self, Function.update_self, List.getElem?_concat_length]
      · intro id' hid
        exact Function.update_of_ne hid _ _

theorem revive_id (h : Kept s) {t : θ} {row : StoredCredential B} {place : Nat}
    (hsecret : (s.check t).secret = some (row, place)) {newId : String} {now : Int}
    {rows : CredentialTable B} {id : String}
    (hup : upsert s.rows (revival row newId now) = some (rows, id)) : id = row.id := by
  obtain ⟨r, hr, hrow, hslot⟩ := h.exists_row t row place hsecret
  have hon : (revival row newId now).onSlot r = true := onSlot_of_slot hslot
  rw [upsert_id_of_onSlot h.slots hup hr hon, hrow]

theorem Kept.revive (h : Kept s) {t : θ} {row : StoredCredential B} {place : Nat}
    (hsecret : (s.check t).secret = some (row, place)) (newId : String) (now : Int) :
    Kept (s.revive row place newId now) := by
  rw [Lifecycle.revive]
  cases hup : Credentials.upsert s.rows (revival row newId now) with
  | none => exact h
  | some result =>
      obtain ⟨rows, id⟩ := result
      have hid : id = row.id := revive_id h hsecret hup
      refine h.upsert hup (fun _ _ _ hplace => hplace) (fun _ => Nat.le_refl _) ?_ ?_
      · rw [Function.update_self, hid]
        exact h.carried t row place hsecret
      · intro id' hid'
        exact Function.update_of_ne hid' _ _

theorem Kept.revoke (h : Kept s) (tenantId id : String) (now : Int) :
    Kept (s.revoke tenantId id now) := by
  rw [Lifecycle.revoke]
  split
  · have hrows := h.update (revocable tenantId id) (StoredCredential.setStatus_id .revoked now)
      (fun _ => rfl) (fun _ => rfl)
    refine ⟨hrows.slots, hrows.held, hrows.exists_row, hrows.carried, ?_⟩
    intro id'
    change Function.update s.revokedBelow id (s.supplied id).length id' ≤ _
    by_cases hid : id' = id
    · rw [hid, Function.update_self]
    · rw [Function.update_of_ne hid]
      exact h.revoked_le id'
  · exact h

theorem RevokedStaysOut.update (h : RevokedStaysOut s) (p : StoredCredential B → Bool)
    {f : StoredCredential B → StoredCredential B} (hid : ∀ r, (f r).id = r.id)
    (hstatus : ∀ r, (f r).status = .active → r.status = .active) :
    RevokedStaysOut { s with rows := s.rows.update p f hid } := by
  intro r' hr' hactive
  cases mem_updateWhere_cases hr' with
  | inl hnew =>
      obtain ⟨r, hr, -, rfl⟩ := hnew
      rw [hid]
      exact h r hr (hstatus r hactive)
  | inr hold => exact h r' hold.1 hactive

theorem RevokedStaysOut.create (hk : Kept s) (h : RevokedStaysOut s) (u : Upsert B) :
    RevokedStaysOut (s.create u) := by
  rw [Lifecycle.create]
  cases hup : upsert s.rows u with
  | none => exact h
  | some result =>
      obtain ⟨rows, id⟩ := result
      intro r hr hactive
      change s.revokedBelow r.id ≤ Function.update s.holds id (s.supplied id).length r.id
      cases (mem_upsert hk.slots hup).mp hr with
      | inl hnew =>
          have hid : r.id = id := by rw [hnew]; exact Upsert.written_id hk.slots hup
          rw [hid, Function.update_self]
          exact hk.revoked_le id
      | inr hold =>
          rw [Function.update_of_ne hold.2]
          exact h r hold.1 hactive

theorem RevokedStaysOut.revoke (h : RevokedStaysOut s) (tenantId id : String) (now : Int) :
    RevokedStaysOut (s.revoke tenantId id now) := by
  rw [Lifecycle.revoke]
  split
  · rename_i hany
    obtain ⟨r₀, hr₀, hrevocable⟩ := List.any_eq_true.mp hany
    have hid₀ : r₀.id = id := (of_decide_eq_true hrevocable).1
    intro r' hr' hactive
    change Function.update s.revokedBelow id (s.supplied id).length r'.id ≤ s.holds r'.id
    cases mem_updateWhere_cases hr' with
    | inl hnew =>
        obtain ⟨r, -, -, rfl⟩ := hnew
        cases hactive
    | inr hold =>
        have hne : r'.id ≠ id := by
          intro hid
          have hsame : r' = r₀ :=
            List.inj_on_of_nodup_map s.rows.unique hold.1 hr₀ (hid.trans hid₀.symm)
          have hoff := hold.2
          rw [hsame, hrevocable] at hoff
          cases hoff
        rw [Function.update_of_ne hne]
        exact h r' hold.1 hactive
  · exact h

theorem revokedStaysOut_revive_iff (hk : Kept s) (h : RevokedStaysOut s) {t : θ}
    {row : StoredCredential B} {place : Nat}
    (hsecret : (s.check t).secret = some (row, place)) (newId : String) (now : Int) :
    RevokedStaysOut (s.revive row place newId now) ↔ s.revokedBelow row.id ≤ place := by
  have hfound : ∃ rows, upsert s.rows (revival row newId now) = some (rows, row.id) := by
    obtain ⟨r, hr, hrow, hslot⟩ := hk.exists_row t row place hsecret
    have hon : (revival row newId now).onSlot r = true := onSlot_of_slot hslot
    cases hfind : s.rows.rows.find? (revival row newId now).onSlot with
    | none => exact absurd hon (List.find?_eq_none.mp hfind r hr)
    | some r₀ =>
        have hup : upsert s.rows (revival row newId now) =
            some (s.rows.update (revival row newId now).onSlot (revival row newId now).replace
              (revival row newId now).replace_id, r₀.id) := by
          rw [upsert, hfind]
        rw [revive_id hk hsecret hup] at hup
        exact ⟨_, hup⟩
  obtain ⟨rows, hup⟩ := hfound
  rw [Lifecycle.revive, hup]
  change (∀ r ∈ rows.rows, r.status = .active →
    s.revokedBelow r.id ≤ Function.update s.holds row.id place r.id) ↔ _
  constructor
  · intro hout
    have hwritten := hout _ ((mem_upsert hk.slots hup).mpr (.inl rfl))
      (Upsert.written_status _ _)
    rw [Upsert.written_id hk.slots hup, Function.update_self] at hwritten
    exact hwritten
  · intro hle r hr hactive
    cases (mem_upsert hk.slots hup).mp hr with
    | inl hnew =>
        rw [hnew, Upsert.written_id hk.slots hup, Function.update_self]
        exact hle
    | inr hold =>
        rw [Function.update_of_ne hold.2]
        exact h r hold.1 hactive

theorem secret_of_markedUndecryptable {a : LifecycleStep B θ} {x : StoredCredential B × Nat}
    (h : markedUndecryptable s a = some x) : ∃ t, (s.check t).secret = some x := by
  cases a with
  | write t newId now =>
      rw [markedUndecryptable] at h
      split at h
      · rename_i row place hcheck
        refine ⟨t, ?_⟩
        rw [hcheck]
        exact h
      · cases h
  | _ => cases h

theorem marksOwnSecret_of_unreplaced (hk : Kept s) {a : LifecycleStep B θ}
    (h : MarksUnreplaced s a) : MarksOwnSecret s a := by
  intro x hx r hr hid
  obtain ⟨t, hsecret⟩ := secret_of_markedUndecryptable hx
  have hheld := hk.held r hr
  have hcarried := hk.carried t x.1 x.2 hsecret
  rw [hid, h x hx, hcarried] at hheld
  exact (Option.some.inj hheld).symm

theorem unreplaced_of_marksOwnSecret (hk : Kept s) (hfresh : ∀ id, (s.supplied id).Nodup)
    {a : LifecycleStep B θ} (h : MarksOwnSecret s a) : MarksUnreplaced s a := by
  intro x hx
  obtain ⟨t, hsecret⟩ := secret_of_markedUndecryptable hx
  obtain ⟨r, hr, hid, -⟩ := hk.exists_row t x.1 x.2 hsecret
  have hheld := hk.held r hr
  have hcarried := hk.carried t x.1 x.2 hsecret
  rw [hid, h x hx r hr hid, ← hcarried] at hheld
  obtain ⟨hlt, -⟩ := List.getElem?_eq_some_iff.mp hcarried
  exact ((List.getElem?_inj hlt (hfresh x.1.id)).mp hheld.symm).symm

end Secrets

section Runs
variable {B θ : Type} [DecidableEq θ]
  {decrypt : String → Provider → Purpose → B → Option String} {s : Lifecycle B θ}

theorem secret_goTo {t t' : θ} {phase : CheckPhase B} {x : StoredCredential B × Nat}
    (h : ((s.goTo t phase).check t').secret = some x) :
    t' = t ∧ phase.secret = some x ∨ (s.check t').secret = some x := by
  change (Function.update s.check t phase t').secret = some x at h
  by_cases ht : t' = t
  · rw [ht, Function.update_self] at h
    exact .inl ⟨ht, h⟩
  · rw [Function.update_of_ne ht] at h
    exact .inr h

theorem Kept.goTo (h : Kept s) (t : θ) {phase : CheckPhase B}
    (hphase : ∀ row place, phase.secret = some (row, place) →
      (s.check t).secret = some (row, place) ∨
        row ∈ s.rows.rows ∧ place = s.holds row.id) : Kept (s.goTo t phase) where
  slots := h.slots
  held := h.held
  exists_row t' row place hsecret := by
    cases secret_goTo hsecret with
    | inl hself =>
        cases hphase row place hself.2 with
        | inl hold => exact h.exists_row t row place hold
        | inr hnew => exact ⟨row, hnew.1, rfl, rfl⟩
    | inr hother => exact h.exists_row t' row place hother
  carried t' row place hsecret := by
    cases secret_goTo hsecret with
    | inl hself =>
        cases hphase row place hself.2 with
        | inl hold => exact h.carried t row place hold
        | inr hnew =>
            rw [hnew.2]
            exact h.held row hnew.1
    | inr hother => exact h.carried t' row place hother
  revoked_le := h.revoked_le

theorem Kept.read (h : Kept s) (t : θ) {phase : StoredCredential B → Nat → CheckPhase B}
    (hphase : ∀ row place, (phase row place).secret = some (row, place))
    {found : Option (StoredCredential B)} (hfound : ∀ row ∈ found, row ∈ s.rows.rows) :
    Kept (s.read t phase found) := by
  cases found with
  | none => exact h
  | some r =>
      apply h.goTo t
      intro row place hsecret
      rw [hphase] at hsecret
      cases hsecret
      exact .inr ⟨hfound r rfl, rfl⟩

theorem secret_afterDecrypt {backendDown : Bool} {phase : CheckPhase B}
    {x : StoredCredential B × Nat}
    (h : (afterDecrypt decrypt backendDown phase).secret = some x) : phase.secret = some x := by
  cases phase with
  | validating row place =>
      rw [afterDecrypt] at h
      split at h
      · exact h
      · split at h <;> exact h
  | resolving row place =>
      rw [afterDecrypt] at h
      split at h
      · cases h
      · split at h
        · cases h
        · exact h
  | idle => exact h
  | undecryptable row place => exact h
  | pinging row place => exact h
  | rejected row => exact h
  | accepted row place => exact h
  | reviving row place => exact h

theorem secret_afterPing {accepted : Bool} {phase : CheckPhase B}
    {x : StoredCredential B × Nat}
    (h : (afterPing accepted phase).secret = some x) : phase.secret = some x := by
  cases phase with
  | pinging row place =>
      rw [afterPing] at h
      split at h
      · exact h
      · cases h
  | idle => exact h
  | validating row place => exact h
  | resolving row place => exact h
  | undecryptable row place => exact h
  | rejected row => exact h
  | accepted row place => exact h
  | reviving row place => exact h

theorem Kept.markInvalid (h : Kept s) (t : θ) (id : String) (now : Int) :
    Kept ({ s with rows := markInvalid s.rows id now }.goTo t .idle) :=
  (h.update _ (StoredCredential.setStatus_id .invalid now) (fun _ => rfl) fun _ => rfl).goTo t
    fun _ _ hsecret => nomatch hsecret

theorem Kept.write (h : Kept s) (t : θ) (newId : String) (now : Int) :
    Kept (s.write t newId now) := by
  rw [Lifecycle.write]
  cases hcheck : s.check t with
  | undecryptable row place => exact h.markInvalid t row.id now
  | rejected row => exact h.markInvalid t row.id now
  | accepted row place =>
      have hrows : Kept { s with rows := markValidated s.rows row.id now } :=
        h.update _ (StoredCredential.touch_id now) (fun _ => rfl) fun _ => rfl
      apply hrows.goTo t
      intro row' place' hsecret
      change (s.check t).secret = _ ∨ _
      rw [hcheck]
      split at hsecret
      · cases hsecret
      · exact .inl hsecret
  | reviving row place =>
      have hsecret : (s.check t).secret = some (row, place) := by rw [hcheck]; rfl
      exact (h.revive hsecret newId now).goTo t fun _ _ hsecret => nomatch hsecret
  | idle => exact h
  | validating row place => exact h
  | resolving row place => exact h
  | pinging row place => exact h

theorem Kept.step (h : Kept s) (a : LifecycleStep B θ) : Kept (lifecycleStep decrypt s a) := by
  cases a with
  | create u => exact h.create u
  | markValidated id now =>
      exact h.update _ (StoredCredential.touch_id now) (fun _ => rfl) fun _ => rfl
  | revoke tenantId id now => exact h.revoke tenantId id now
  | readForValidation t tenantId id =>
      exact h.read t (fun _ _ => rfl) fun row hrow => (getById_eq_some.mp hrow).1
  | readActive t tenantId purpose =>
      exact h.read t (fun _ _ => rfl) fun row hrow => (getActiveForPurpose_some hrow).1
  | readFallback t tenantId id =>
      apply h.read t (fun _ _ => rfl)
      intro row hrow
      exact (getById_eq_some.mp (Option.filter_eq_some_iff.mp hrow).1).1
  | decrypt t backendDown =>
      exact h.goTo t fun row place hsecret => .inl (secret_afterDecrypt hsecret)
  | ping t accepted =>
      exact h.goTo t fun row place hsecret => .inl (secret_afterPing hsecret)
  | write t newId now => exact h.write t newId now

theorem RevokedStaysOut.markInvalid (h : RevokedStaysOut s) (t : θ) (id : String) (now : Int) :
    RevokedStaysOut ({ s with rows := Credentials.markInvalid s.rows id now }.goTo t .idle) :=
  h.update _ (StoredCredential.setStatus_id .invalid now) fun _ hactive => nomatch hactive

theorem revokedStaysOut_step_iff (hk : Kept s) (h : RevokedStaysOut s)
    (a : LifecycleStep B θ) :
    RevokedStaysOut (lifecycleStep decrypt s a) ↔ RevivesUnrevoked s a := by
  have hread (t : θ) (phase : StoredCredential B → Nat → CheckPhase B)
      (found : Option (StoredCredential B)) : RevokedStaysOut (s.read t phase found) := by
    cases found with
    | none => exact h
    | some r => exact h
  have hnone {P : Prop} (hP : P) (ha : revived s a = none) : P ↔ RevivesUnrevoked s a :=
    iff_of_true hP fun x hx => by
      rw [ha] at hx
      cases hx
  cases a with
  | create u => exact hnone (h.create hk u) rfl
  | markValidated id now =>
      exact hnone (h.update _ (StoredCredential.touch_id now) fun _ hactive => hactive) rfl
  | revoke tenantId id now => exact hnone (h.revoke tenantId id now) rfl
  | readForValidation t tenantId id => exact hnone (hread t _ _) rfl
  | readActive t tenantId purpose => exact hnone (hread t _ _) rfl
  | readFallback t tenantId id => exact hnone (hread t _ _) rfl
  | decrypt t backendDown => exact hnone h rfl
  | ping t accepted => exact hnone h rfl
  | write t newId now =>
      rw [lifecycleStep, Lifecycle.write]
      rw [revived] at hnone
      cases hcheck : s.check t with
      | undecryptable row place =>
          exact hnone (h.markInvalid t row.id now) (by rw [hcheck])
      | rejected row => exact hnone (h.markInvalid t row.id now) (by rw [hcheck])
      | accepted row place =>
          exact hnone (h.update _ (StoredCredential.touch_id now) fun _ hactive => hactive)
            (by rw [hcheck])
      | reviving row place =>
          have hsecret : (s.check t).secret = some (row, place) := by rw [hcheck]; rfl
          have hrevived : revived s (.write t newId now) = some (row, place) := by
            rw [revived, hcheck]
          rw [RevivesUnrevoked, hrevived]
          refine (revokedStaysOut_revive_iff hk h hsecret newId now).trans ?_
          constructor
          · intro hle x hx
            cases hx
            exact hle
          · exact fun hle => hle (row, place) rfl
      | idle => exact hnone h (by rw [hcheck])
      | validating row place => exact hnone h (by rw [hcheck])
      | resolving row place => exact hnone h (by rw [hcheck])
      | pinging row place => exact hnone h (by rw [hcheck])

theorem supplied_write (t : θ) (newId : String) (now : Int) :
    (s.write t newId now).supplied = s.supplied := by
  rw [Lifecycle.write]
  cases s.check t with
  | reviving row place =>
      change (s.revive row place newId now).supplied = s.supplied
      rw [Lifecycle.revive]
      cases Credentials.upsert s.rows (revival row newId now) <;> rfl
  | _ => rfl

theorem supplied_nodup_step (h : ∀ id, (s.supplied id).Nodup) {a : LifecycleStep B θ}
    (hfresh : SuppliesFresh s a) (id : String) :
    ((lifecycleStep decrypt s a).supplied id).Nodup := by
  have hread (t : θ) (phase : StoredCredential B → Nat → CheckPhase B)
      (found : Option (StoredCredential B)) : (s.read t phase found).supplied = s.supplied := by
    cases found <;> rfl
  cases a with
  | create u =>
      rw [lifecycleStep, Lifecycle.create]
      cases Credentials.upsert s.rows u with
      | none => exact h id
      | some result =>
          obtain ⟨rows, id'⟩ := result
          change (Function.update s.supplied id' (s.supplied id' ++ [u.blob]) id).Nodup
          by_cases hid : id = id'
          · rw [hid, Function.update_self]
            rw [← List.concat_eq_append, List.nodup_concat]
            exact ⟨hfresh id', h id'⟩
          · rw [Function.update_of_ne hid]
            exact h id
  | revoke tenantId id' now =>
      rw [lifecycleStep, Lifecycle.revoke]
      split <;> exact h id
  | readForValidation t tenantId id' => rw [lifecycleStep, hread]; exact h id
  | readActive t tenantId purpose => rw [lifecycleStep, hread]; exact h id
  | readFallback t tenantId id' => rw [lifecycleStep, hread]; exact h id
  | write t newId now => rw [lifecycleStep, supplied_write]; exact h id
  | markValidated id' now => exact h id
  | decrypt t backendDown => exact h id
  | ping t accepted => exact h id

end Runs

/-- A revoked secret stays out of use throughout a run exactly when no validation writes one
back. A row that still has the secret read is marked for that secret and, where every
encryption is new, only such a row is. -/
theorem revoked_stays_out_iff {B θ : Type} [DecidableEq θ]
    (decrypt : String → Provider → Purpose → B → Option String)
    (run : List (LifecycleStep B θ)) :
    (Always (lifecycleStep decrypt) RevokedStaysOut noLifecycle run ↔
      AllSteps (lifecycleStep decrypt) RevivesUnrevoked noLifecycle run) ∧
    (AllSteps (lifecycleStep decrypt) MarksUnreplaced noLifecycle run →
      AllSteps (lifecycleStep decrypt) MarksOwnSecret noLifecycle run) ∧
    (AllSteps (lifecycleStep decrypt) SuppliesFresh noLifecycle run →
      AllSteps (lifecycleStep decrypt) MarksOwnSecret noLifecycle run →
      AllSteps (lifecycleStep decrypt) MarksUnreplaced noLifecycle run) := by
  have hkept : Always (lifecycleStep decrypt) Kept noLifecycle run :=
    always_of_step (fun s a h => h.step a) kept_noLifecycle run
  refine ⟨?_, ?_, ?_⟩
  · have hout : RevokedStaysOut (noLifecycle : Lifecycle B θ) := by
      intro r hr
      cases hr
    exact always_iff_allSteps_of_invariant (I := Kept) (P := RevokedStaysOut)
      (fun _ a h => h.step a) (fun _ a hk h => revokedStaysOut_step_iff hk h a)
      kept_noLifecycle hout run
  · intro h
    exact (h.and_always hkept).mono fun s a hs => marksOwnSecret_of_unreplaced hs.1 hs.2
  · intro hfresh h
    have hnodup : Always (lifecycleStep decrypt) (fun s => ∀ id, (s.supplied id).Nodup)
        noLifecycle run :=
      always_of_allSteps (fun s a hs hg => supplied_nodup_step hs hg)
        (fun _ => List.nodup_nil) hfresh
    exact ((h.and_always hkept).and_always hnodup).mono fun s a hs =>
      unreplaced_of_marksOwnSecret hs.2.1 hs.1 hs.2.2

section Sample

def reviveUpsert (key : String) : Upsert String :=
  ⟨"acme", .openai, .llm, key, none, none, none, "cred-1", 0⟩

def sealedDecrypt (_ : String) (_ : Provider) (_ : Purpose) (blob : String) : Option String :=
  if blob = "garbled" then none else some blob

/-- Created, revoked, validated. -/
def validateRevoked : List (LifecycleStep String Unit) :=
  [.create (reviveUpsert "sk-leaked"), .revoke "acme" "cred-1" 1,
    .readForValidation () "acme" "cred-1", .decrypt () false, .ping () true, .write () "" 2,
    .write () "" 3]

/-- The secret that does not decrypt is replaced before its row is marked. -/
def markReplaced : List (LifecycleStep String Unit) :=
  [.create (reviveUpsert "garbled"), .readActive () "acme" .llm, .decrypt () false,
    .create (reviveUpsert "sk-new-key"), .write () "" 2]

/-- Validating a revoked credential brings it back, and the replacement of a broken one is
marked for it. -/
theorem revoked_validated_again :
    ¬ Always (lifecycleStep sealedDecrypt) RevokedStaysOut noLifecycle validateRevoked ∧
    ¬ AllSteps (lifecycleStep sealedDecrypt) MarksOwnSecret noLifecycle markReplaced := by
  decide +kernel

end Sample

end Engramia.Credentials
