import Engramia.Credentials.Slots
import Engramia.Library.Run

/-!
Which credential serves a purpose. The constraint leaves one row to each
provider, while a purpose is looked up across providers, newest row first; a
rotation keeps the row and its `created_at`. The state records when the secret
of each row was last written.
-/
namespace Engramia.Credentials

open Engramia.Library

structure CredentialHistory (B : Type) where
  rows : CredentialTable B
  clock : Nat
  writtenAt : String → Nat

/-- The statements that write rows. A validation that brings a row back is an upsert of
what the row holds. -/
inductive StoreOp (B : Type) where
  | upsert (u : Upsert B)
  | patch (tenantId id : String) (fields : PatchFields) (ifMatch : Option Int) (now : Int)
  | revoke (tenantId id : String) (now : Int)
  | markInvalid (id : String) (now : Int)
  | markValidated (id : String) (now : Int)

section Selection
variable {B : Type}

def CredentialHistory.upsert (s : CredentialHistory B) (u : Upsert B) : CredentialHistory B :=
  match Credentials.upsert s.rows u with
  | none => s
  | some (rows, id) =>
      { rows := rows
        clock := s.clock + 1
        writtenAt := Function.update s.writtenAt id (s.clock + 1) }

def storeStep (s : CredentialHistory B) : StoreOp B → CredentialHistory B
  | .upsert u => s.upsert u
  | .patch tenantId id fields ifMatch now =>
      { s with rows := (patch s.rows tenantId id fields ifMatch now).1 }
  | .revoke tenantId id now => { s with rows := revoke s.rows tenantId id now }
  | .markInvalid id now => { s with rows := markInvalid s.rows id now }
  | .markValidated id now => { s with rows := markValidated s.rows id now }

def noHistory : CredentialHistory B := ⟨noCredentials, 0, fun _ => 0⟩

/-- No two active rows of a tenant have the same purpose. -/
def OneActive (rows : CredentialTable B) : Prop :=
  ∀ a ∈ rows.rows, ∀ b ∈ rows.rows, a.status = .active → b.status = .active →
    a.tenantId = b.tenantId → a.purpose = b.purpose → a = b

instance [DecidableEq B] (rows : CredentialTable B) : Decidable (OneActive rows) :=
  inferInstanceAs (Decidable (∀ a ∈ rows.rows, ∀ b ∈ rows.rows, _))

/-- A lookup should return `a` rather than `b`. -/
def Preferred (writtenAt : String → Nat) (purpose : Purpose) (a b : StoredCredential B) : Prop :=
  (b.purpose = purpose → a.purpose = purpose) ∧
  ((a.purpose = purpose ↔ b.purpose = purpose) → writtenAt b.id ≤ writtenAt a.id)

instance (writtenAt : String → Nat) (purpose : Purpose) (a b : StoredCredential B) :
    Decidable (Preferred writtenAt purpose a b) :=
  inferInstanceAs (Decidable (_ ∧ _))

/-- A lookup returns, of the active rows that serve the purpose, an exact one if there is
one, and the one whose secret was written last. -/
def ReturnsLatest (s : CredentialHistory B) (tenantId : String) (purpose : Purpose) : Prop :=
  ∀ r' ∈ s.rows.rows, serves tenantId purpose r' = true →
    ∃ r ∈ getActiveForPurpose s.rows tenantId purpose, Preferred s.writtenAt purpose r r'

instance (s : CredentialHistory B) (tenantId : String) (purpose : Purpose) :
    Decidable (ReturnsLatest s tenantId purpose) :=
  inferInstanceAs (Decidable (∀ r' ∈ s.rows.rows, _ → _))

structure Unambiguous (s : CredentialHistory B) : Prop where
  one : OneActive s.rows
  latest : ∀ tenantId purpose, ReturnsLatest s tenantId purpose

/-- An upsert finds no active row of the tenant with its purpose under another provider. -/
def NoRival (s : CredentialHistory B) : StoreOp B → Prop
  | .upsert u => (upsert s.rows u).isSome → ∀ r ∈ s.rows.rows, r.tenantId = u.tenantId →
      r.purpose = u.purpose → r.provider ≠ u.provider → r.status ≠ .active
  | _ => True

theorem comesFirst_total (purpose : Purpose) (a b : StoredCredential B) :
    comesFirst purpose a b = true ∨ comesFirst purpose b a = true := by
  rw [comesFirst, comesFirst]
  by_cases ha : a.purpose = purpose <;> by_cases hb : b.purpose = purpose <;> simp [ha, hb] <;>
    omega

theorem comesFirst_trans (purpose : Purpose) {a b c : StoredCredential B}
    (hab : comesFirst purpose a b = true) (hbc : comesFirst purpose b c = true) :
    comesFirst purpose a c = true := by
  rw [comesFirst] at *
  by_cases ha : a.purpose = purpose <;> by_cases hb : b.purpose = purpose <;>
    by_cases hc : c.purpose = purpose <;> simp [ha, hb, hc] at * <;> omega

variable {rows : CredentialTable B} {tenantId : String} {purpose : Purpose}

theorem serves_iff {r : StoredCredential B} :
    serves tenantId purpose r = true ↔
      r.tenantId = tenantId ∧ r.status = .active ∧ (r.purpose = purpose ∨ r.purpose = .both) :=
  decide_eq_true_iff

theorem getActiveForPurpose_first {r : StoredCredential B}
    (h : getActiveForPurpose rows tenantId purpose = some r) :
    (r ∈ rows.rows ∧ serves tenantId purpose r = true) ∧
    ∀ r' ∈ rows.rows, serves tenantId purpose r' = true → comesFirst purpose r r' = true := by
  have htotal : Std.Total fun a b : StoredCredential B => comesFirst purpose a b = true :=
    ⟨comesFirst_total purpose⟩
  have htrans : IsTrans (StoredCredential B) fun a b => comesFirst purpose a b = true :=
    ⟨fun _ _ _ => comesFirst_trans purpose⟩
  have hsorted := List.pairwise_insertionSort
    (fun a b : StoredCredential B => comesFirst purpose a b = true)
    (rows.rows.filter (serves tenantId purpose))
  have hmem (x : StoredCredential B) := List.mem_insertionSort
    (fun a b : StoredCredential B => comesFirst purpose a b = true)
    (l := rows.rows.filter (serves tenantId purpose)) (x := x)
  rw [getActiveForPurpose] at h
  generalize (rows.rows.filter (serves tenantId purpose)).insertionSort
    (fun a b => comesFirst purpose a b = true) = sorted at h hsorted hmem
  cases sorted with
  | nil => cases h
  | cons first rest =>
      cases h
      refine ⟨List.mem_filter.mp ((hmem r).mp List.mem_cons_self), ?_⟩
      intro r' hr' hserves
      cases List.mem_cons.mp ((hmem r').mpr (List.mem_filter.mpr ⟨hr', hserves⟩)) with
      | inl heq =>
          rw [heq]
          exact (comesFirst_total purpose r r).elim id id
      | inr hrest => exact (List.pairwise_cons.mp hsorted).1 r' hrest

theorem getActiveForPurpose_none (h : getActiveForPurpose rows tenantId purpose = none) :
    ∀ r ∈ rows.rows, serves tenantId purpose r = false := by
  intro r hr
  by_contra hserves
  rw [Bool.not_eq_false] at hserves
  have hmem := (List.mem_insertionSort fun a b => comesFirst purpose a b = true).mpr
    (List.mem_filter.mpr ⟨hr, hserves⟩)
  rw [List.head?_eq_none_iff.mp h] at hmem
  cases hmem

theorem returnsLatest_of_oneActive {s : CredentialHistory B} (h : OneActive s.rows)
    (tenantId : String) (purpose : Purpose) : ReturnsLatest s tenantId purpose := by
  intro r' hr' hserves'
  cases hget : getActiveForPurpose s.rows tenantId purpose with
  | none =>
      rw [getActiveForPurpose_none hget r' hr'] at hserves'
      cases hserves'
  | some r =>
      obtain ⟨⟨hr, hserves⟩, hfirst⟩ := getActiveForPurpose_first hget
      refine ⟨r, rfl, ?_⟩
      have horder := hfirst r' hr' hserves'
      obtain ⟨htenant, hactive, hpurpose⟩ := serves_iff.mp hserves
      obtain ⟨htenant', hactive', hpurpose'⟩ := serves_iff.mp hserves'
      rw [comesFirst] at horder
      constructor
      · intro hexact'
        by_contra hexact
        simp [hexact, hexact'] at horder
      · intro hsame
        have hpurposes : r.purpose = r'.purpose := by
          by_cases hexact : r.purpose = purpose
          · rw [hexact, hsame.mp hexact]
          · have hexact' : ¬ r'.purpose = purpose := fun h => hexact (hsame.mpr h)
            rw [hpurpose.resolve_left hexact, hpurpose'.resolve_left hexact']
        rw [h r hr r' hr' hactive hactive' (htenant.trans htenant'.symm) hpurposes]

theorem unambiguous_iff {s : CredentialHistory B} : Unambiguous s ↔ OneActive s.rows :=
  ⟨fun h => h.one, fun h => ⟨h, returnsLatest_of_oneActive h⟩⟩

theorem OneActive.update (h : OneActive rows) (p : StoredCredential B → Bool)
    {f : StoredCredential B → StoredCredential B} (hid : ∀ r, (f r).id = r.id)
    (hslot : ∀ r, (f r).slot = r.slot)
    (hstatus : ∀ r, (f r).status = .active → r.status = .active) :
    OneActive (rows.update p f hid) := by
  have hold (r' : StoredCredential B) (hr' : r' ∈ (rows.update p f hid).rows) :
      ∃ r ∈ rows.rows, (if p r then f r else r) = r' ∧ r.slot = r'.slot ∧
        (r'.status = .active → r.status = .active) := by
    obtain ⟨r, hr, rfl⟩ := mem_updateWhere.mp hr'
    refine ⟨r, hr, rfl, ?_⟩
    split
    · exact ⟨(hslot r).symm, hstatus r⟩
    · exact ⟨rfl, id⟩
  intro a' ha' b' hb' hactive hactive' htenant hpurpose
  obtain ⟨a, ha, rfl, hslota, hstatusa⟩ := hold a' ha'
  obtain ⟨b, hb, rfl, hslotb, hstatusb⟩ := hold b' hb'
  rw [StoredCredential.slot, StoredCredential.slot, Option.some.injEq, Prod.mk.injEq,
    Prod.mk.injEq] at hslota hslotb
  have hsame := h a ha b hb (hstatusa hactive) (hstatusb hactive')
    (hslota.1.trans (htenant.trans hslotb.1.symm))
    (hslota.2.2.trans (hpurpose.trans hslotb.2.2.symm))
  rw [hsame]

theorem oneActive_upsert_iff (hslots : OneRowPerSlot rows) (h : OneActive rows) {u : Upsert B}
    {rows' : CredentialTable B} {id : String} (hup : upsert rows u = some (rows', id)) :
    OneActive rows' ↔ ∀ r ∈ rows.rows, r.tenantId = u.tenantId → r.purpose = u.purpose →
      r.provider ≠ u.provider → r.status ≠ .active := by
  have hslot : (u.written (rows.rows.find? u.onSlot)).slot =
      some (u.tenantId, u.provider, u.purpose) :=
    u.written_slot fun r hr => List.find?_some hr
  have hid := Upsert.written_id hslots hup
  have hactive := u.written_status (rows.rows.find? u.onSlot)
  have hmem (r : StoredCredential B) := mem_upsert hslots hup (r := r)
  generalize u.written (rows.rows.find? u.onSlot) = w at hslot hid hactive hmem
  rw [StoredCredential.slot, Option.some.injEq, Prod.mk.injEq, Prod.mk.injEq] at hslot
  obtain ⟨htenant, hprovider, hpurpose⟩ := hslot
  -- the row written is the only one of its slot
  have hother {r : StoredCredential B} (hr : r ∈ rows.rows) (hne : r.id ≠ id)
      (ht : r.tenantId = u.tenantId) (hp : r.purpose = u.purpose) : r.provider ≠ u.provider := by
    intro hprov
    exact hne (upsert_id_of_onSlot hslots hup hr (Upsert.onSlot_iff.mpr ⟨ht, hprov, hp⟩)).symm
  constructor
  · intro hone r hr ht hp hprov hstatus
    have hne : r.id ≠ id := by
      intro heq
      obtain ⟨r', hr', hid', hslot'⟩ := upsert_keeps_slot hslots hup hr
      have hw : r' = w := ((hmem r').mp hr').resolve_right fun hold => hold.2 (hid'.trans heq)
      rw [hw, StoredCredential.slot, StoredCredential.slot, Option.some.injEq, Prod.mk.injEq,
        Prod.mk.injEq, hprovider] at hslot'
      exact hprov hslot'.2.1.symm
    have hsame := hone r ((hmem r).mpr (.inr ⟨hr, hne⟩)) w ((hmem w).mpr (.inl rfl)) hstatus
      hactive (ht.trans htenant.symm) (hp.trans hpurpose.symm)
    exact hprov (by rw [hsame, hprovider])
  · intro hfree a ha b hb hactivea hactiveb ht hp
    cases (hmem a).mp ha with
    | inl hnewa =>
        cases (hmem b).mp hb with
        | inl hnewb => rw [hnewa, hnewb]
        | inr holdb =>
            have htb : b.tenantId = u.tenantId := by rw [← ht, hnewa, htenant]
            have hpb : b.purpose = u.purpose := by rw [← hp, hnewa, hpurpose]
            exact absurd hactiveb
              (hfree b holdb.1 htb hpb (hother holdb.1 holdb.2 htb hpb))
    | inr holda =>
        cases (hmem b).mp hb with
        | inl hnewb =>
            have hta : a.tenantId = u.tenantId := by rw [ht, hnewb, htenant]
            have hpa : a.purpose = u.purpose := by rw [hp, hnewb, hpurpose]
            exact absurd hactivea
              (hfree a holda.1 hta hpa (hother holda.1 holda.2 hta hpa))
        | inr holdb => exact h a holda.1 b holdb.1 hactivea hactiveb ht hp

theorem patch_cases (rows : CredentialTable B) (tenantId id : String) (fields : PatchFields)
    (ifMatch : Option Int) (now : Int) :
    (patch rows tenantId id fields ifMatch now).1 = rows ∨
    ∃ p, (patch rows tenantId id fields ifMatch now).1 =
      rows.update p (fields.set now) (fields.set_id now) := by
  rw [patch]
  split
  · exact .inl rfl
  · split
    · exact .inr ⟨_, rfl⟩
    · split
      · exact .inl rfl
      · split <;> exact .inl rfl

theorem oneRowPerSlot_storeStep {s : CredentialHistory B} (h : OneRowPerSlot s.rows)
    (op : StoreOp B) : OneRowPerSlot (storeStep s op).rows := by
  cases op with
  | upsert u =>
      rw [storeStep, CredentialHistory.upsert]
      cases hup : upsert s.rows u with
      | none => exact h
      | some result => exact h.upsert hup
  | patch tenantId id fields ifMatch now =>
      cases patch_cases s.rows tenantId id fields ifMatch now with
      | inl hsame =>
          rw [storeStep, hsame]
          exact h
      | inr hset =>
          obtain ⟨p, hset⟩ := hset
          rw [storeStep, hset]
          exact h.update (fields.set_id now) fun _ => rfl
  | revoke tenantId id now =>
      exact h.update (StoredCredential.setStatus_id .revoked now) fun _ => rfl
  | markInvalid id now => exact h.update (StoredCredential.setStatus_id .invalid now) fun _ => rfl
  | markValidated id now => exact h.update (StoredCredential.touch_id now) fun _ => rfl

theorem unambiguous_step_iff {s : CredentialHistory B} (hslots : OneRowPerSlot s.rows)
    (h : Unambiguous s) (op : StoreOp B) : Unambiguous (storeStep s op) ↔ NoRival s op := by
  rw [unambiguous_iff] at *
  cases op with
  | upsert u =>
      rw [storeStep, CredentialHistory.upsert, NoRival]
      cases hup : upsert s.rows u with
      | none => exact iff_of_true h fun hsome => nomatch hsome
      | some result =>
          obtain ⟨rows, id⟩ := result
          exact (oneActive_upsert_iff hslots h hup).trans
            ⟨fun hfree _ => hfree, fun hfree => hfree rfl⟩
  | patch tenantId id fields ifMatch now =>
      refine iff_of_true ?_ trivial
      cases patch_cases s.rows tenantId id fields ifMatch now with
      | inl hsame =>
          rw [storeStep, hsame]
          exact h
      | inr hset =>
          obtain ⟨p, hset⟩ := hset
          rw [storeStep, hset]
          exact h.update p (fields.set_id now) (fun _ => rfl) fun _ hactive => hactive
  | revoke tenantId id now =>
      exact iff_of_true (h.update _ (StoredCredential.setStatus_id .revoked now) (fun _ => rfl)
        fun _ hactive => nomatch hactive) trivial
  | markInvalid id now =>
      exact iff_of_true (h.update _ (StoredCredential.setStatus_id .invalid now) (fun _ => rfl)
        fun _ hactive => nomatch hactive) trivial
  | markValidated id now =>
      exact iff_of_true (h.update _ (StoredCredential.touch_id now) (fun _ => rfl)
        fun _ hactive => hactive) trivial

end Selection

/-- From the empty table the credential of every purpose is unambiguous throughout a run
exactly when no upsert finds a rival under another provider. -/
theorem unambiguous_iff_no_rival {B : Type} (ops : List (StoreOp B)) :
    Always storeStep Unambiguous noHistory ops ↔ AllSteps storeStep NoRival noHistory ops := by
  have hstart : Unambiguous (noHistory : CredentialHistory B) := by
    apply unambiguous_iff.mpr
    intro a ha
    cases ha
  exact always_iff_allSteps_of_invariant (I := fun s : CredentialHistory B => OneRowPerSlot s.rows)
    (fun _ op h => oneRowPerSlot_storeStep h op)
    (fun _ op hslots h => unambiguous_step_iff hslots h op) oneRowPerSlot_noCredentials hstart ops

section Sample

def llmUpsert (provider : Provider) (key id : String) (now : Int) : Upsert String :=
  ⟨"acme", provider, .llm, key, none, none, none, id, now⟩

/-- Two providers for one purpose, and a rotation of the first. -/
def twoProviders : List (StoreOp String) :=
  [.upsert (llmUpsert .openai "sk-openai-old" "cred-1" 0),
    .upsert (llmUpsert .anthropic "sk-anthropic" "cred-2" 1),
    .upsert (llmUpsert .openai "sk-openai-new" "cred-3" 2)]

/-- Both are active, and the lookup returns the one whose secret is older. -/
theorem two_active :
    ¬ OneActive (exec storeStep noHistory twoProviders).rows ∧
    ¬ ReturnsLatest (exec storeStep noHistory twoProviders) "acme" .llm := by
  decide

end Sample

end Engramia.Credentials
