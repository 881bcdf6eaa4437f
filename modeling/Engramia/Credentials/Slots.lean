import Engramia.Credentials.Store

/-!
The `UNIQUE (tenant_id, provider, purpose)` constraint of `tenant_credentials`,
and what an upsert does to the row of a slot when every slot has one.
-/
namespace Engramia.Credentials

open Engramia.Library

section Slots
variable {B : Type}

def StoredCredential.slot (r : StoredCredential B) : Option (String × Provider × Purpose) :=
  some (r.tenantId, r.provider, r.purpose)

/-- The constraint. -/
def OneRowPerSlot (rows : CredentialTable B) : Prop :=
  UniqueOn StoredCredential.slot rows.rows

instance (rows : CredentialTable B) : Decidable (OneRowPerSlot rows) :=
  inferInstanceAs (Decidable (UniqueOn _ _))

/-- The row an upsert leaves in its slot, where `old` was there before. -/
def Upsert.written (u : Upsert B) : Option (StoredCredential B) → StoredCredential B
  | some r => u.replace r
  | none => u.row

def noCredentials : CredentialTable B := ⟨[], List.nodup_nil⟩

variable {rows rows' : CredentialTable B} {u : Upsert B} {id : String}

theorem slot_of_onSlot {r : StoredCredential B} (h : u.onSlot r = true) :
    r.slot = some (u.tenantId, u.provider, u.purpose) := by
  obtain ⟨htenant, hprovider, hpurpose⟩ := Upsert.onSlot_iff.mp h
  rw [StoredCredential.slot, htenant, hprovider, hpurpose]

theorem onSlot_of_slot {r : StoredCredential B}
    (h : r.slot = some (u.tenantId, u.provider, u.purpose)) : u.onSlot r = true := by
  rw [StoredCredential.slot, Option.some.injEq, Prod.mk.injEq, Prod.mk.injEq] at h
  exact Upsert.onSlot_iff.mpr h

theorem oneRowPerSlot_noCredentials : OneRowPerSlot (noCredentials : CredentialTable B) :=
  List.Pairwise.nil

theorem OneRowPerSlot.eq (h : OneRowPerSlot rows) {a b : StoredCredential B}
    (ha : a ∈ rows.rows) (hb : b ∈ rows.rows) (hslot : a.slot = b.slot) : a = b :=
  UniqueOn.eq_of_key h ha hb rfl hslot.symm

theorem OneRowPerSlot.update (h : OneRowPerSlot rows) {p : StoredCredential B → Bool}
    {f : StoredCredential B → StoredCredential B} (hid : ∀ r, (f r).id = r.id)
    (hslot : ∀ r, (f r).slot = r.slot) : OneRowPerSlot (rows.update p f hid) :=
  UniqueOn.updateWhere h fun r _ => hslot r

theorem Upsert.written_slot (u : Upsert B) {old : Option (StoredCredential B)}
    (h : ∀ r ∈ old, u.onSlot r = true) :
    (u.written old).slot = some (u.tenantId, u.provider, u.purpose) := by
  cases old with
  | none => rfl
  | some r => exact (show (u.replace r).slot = r.slot from rfl).trans (slot_of_onSlot (h r rfl))

theorem Upsert.written_status (u : Upsert B) (old : Option (StoredCredential B)) :
    (u.written old).status = .active := by
  cases old <;> rfl

theorem Upsert.written_blob (u : Upsert B) (old : Option (StoredCredential B)) :
    (u.written old).blob = u.blob := by
  cases old <;> rfl

/-- Where an upsert writes: in the row of its slot, or in a new one. -/
theorem upsert_cases (hup : upsert rows u = some (rows', id)) :
    (∃ r ∈ rows.rows, r.id = id ∧ u.onSlot r = true ∧ rows.rows.find? u.onSlot = some r ∧
      rows' = rows.update u.onSlot u.replace u.replace_id) ∨
    (rows.rows.find? u.onSlot = none ∧ id = u.newId ∧ rows.insert u.row = some rows') := by
  rw [upsert] at hup
  cases hfind : rows.rows.find? u.onSlot with
  | some r =>
      simp only [hfind] at hup
      cases hup
      exact .inl ⟨r, List.mem_of_find?_eq_some hfind, rfl, List.find?_some hfind, rfl, rfl⟩
  | none =>
      simp only [hfind, Option.map_eq_some_iff, Prod.mk.injEq] at hup
      obtain ⟨_, hins, rfl, rfl⟩ := hup
      exact .inr ⟨rfl, rfl, hins⟩

theorem OneRowPerSlot.upsert (h : OneRowPerSlot rows) (hup : upsert rows u = some (rows', id)) :
    OneRowPerSlot rows' := by
  cases upsert_cases hup with
  | inl hold =>
      obtain ⟨r, -, -, -, -, rfl⟩ := hold
      exact h.update u.replace_id fun _ => rfl
  | inr hnew =>
      obtain ⟨hnone, -, hins⟩ := hnew
      have hrows : rows'.rows = rows.rows ++ [u.row] := by
        rw [Table.insert] at hins
        split at hins
        · cases hins
        · cases hins
          rfl
      rw [OneRowPerSlot, hrows, uniqueOn_append_singleton]
      refine ⟨h, ?_⟩
      intro r hr hslot
      have hon := onSlot_of_slot (u := u) hslot
      have hoff := List.find?_eq_none.mp hnone r hr
      exact absurd hon hoff

/-- Read by key, an upsert writes one row. -/
theorem row?_upsert (h : OneRowPerSlot rows) (hup : upsert rows u = some (rows', id))
    (k : String) :
    rows'.row? k =
      if k = id then some (u.written (rows.rows.find? u.onSlot)) else rows.row? k := by
  cases upsert_cases hup with
  | inl hold =>
      obtain ⟨r, hr, hid, hon, hfind, rfl⟩ := hold
      rw [Table.row?_update, hfind]
      by_cases hk : k = id
      · have hrow : rows.row? k = some r := Table.row?_eq_some.mpr ⟨hr, hid.trans hk.symm⟩
        rw [if_pos hk, hrow, Option.map_some, if_pos hon]
        rfl
      · rw [if_neg hk]
        cases hrow : rows.row? k with
        | none => rfl
        | some r' =>
            obtain ⟨hr', hid'⟩ := Table.row?_eq_some.mp hrow
            have hoff : ¬ u.onSlot r' = true := by
              intro hon'
              have hsame := h.eq hr' hr ((slot_of_onSlot hon').trans (slot_of_onSlot hon).symm)
              exact hk (by rw [← hid', hsame, hid])
            rw [Option.map_some, if_neg hoff]
  | inr hnew =>
      obtain ⟨hnone, hid, hins⟩ := hnew
      have hrow := Table.row?_insert hins k
      rw [hrow, hnone, hid]
      by_cases hk : k = u.newId
      · have heq : u.row.id = k := hk.symm
        rw [if_pos hk, if_pos heq]
        rfl
      · have hne : ¬ u.row.id = k := fun heq => hk heq.symm
        rw [if_neg hk, if_neg hne]

theorem Upsert.written_id (h : OneRowPerSlot rows) (hup : upsert rows u = some (rows', id)) :
    (u.written (rows.rows.find? u.onSlot)).id = id := by
  have hrow := row?_upsert h hup id
  rw [if_pos rfl] at hrow
  exact (Table.row?_eq_some.mp hrow).2

theorem mem_upsert (h : OneRowPerSlot rows) (hup : upsert rows u = some (rows', id))
    {r : StoredCredential B} :
    r ∈ rows'.rows ↔ r = u.written (rows.rows.find? u.onSlot) ∨ r ∈ rows.rows ∧ r.id ≠ id := by
  have hmem : r ∈ rows'.rows ↔ rows'.row? r.id = some r := by
    rw [Table.row?_eq_some, and_iff_left rfl]
  rw [hmem, row?_upsert h hup]
  by_cases hid : r.id = id
  · rw [if_pos hid, Option.some.injEq, eq_comm]
    exact ⟨.inl, fun h => h.resolve_right fun hr => hr.2 hid⟩
  · rw [if_neg hid, Table.row?_eq_some]
    constructor
    · exact fun hr => .inr ⟨hr.1, hid⟩
    · intro h
      cases h with
      | inl heq => exact absurd (heq ▸ Upsert.written_id h hup) hid
      | inr hr => exact ⟨hr.1, rfl⟩

/-- The row of a slot keeps its id. -/
theorem upsert_id_of_onSlot (h : OneRowPerSlot rows) (hup : upsert rows u = some (rows', id))
    {r : StoredCredential B} (hr : r ∈ rows.rows) (hon : u.onSlot r = true) : id = r.id := by
  cases upsert_cases hup with
  | inl hold =>
      obtain ⟨r', hr', hid, hon', -⟩ := hold
      rw [← hid, h.eq hr' hr ((slot_of_onSlot hon').trans (slot_of_onSlot hon).symm)]
  | inr hnew => exact absurd hon (List.find?_eq_none.mp hnew.1 r hr)

theorem upsert_keeps_slot (h : OneRowPerSlot rows) (hup : upsert rows u = some (rows', id))
    {r : StoredCredential B} (hr : r ∈ rows.rows) :
    ∃ r' ∈ rows'.rows, r'.id = r.id ∧ r'.slot = r.slot := by
  by_cases hid : r.id = id
  · refine ⟨_, (mem_upsert h hup).mpr (.inl rfl), (Upsert.written_id h hup).trans hid.symm, ?_⟩
    cases upsert_cases hup with
    | inl hold =>
        obtain ⟨r', hr', hid', -, hfind, -⟩ := hold
        have hsame : r' = r := List.inj_on_of_nodup_map rows.unique hr' hr (hid'.trans hid.symm)
        rw [hfind, hsame]
        rfl
    | inr hnew =>
        have hfresh : rows.row? id = none := by
          rw [hnew.2.1]
          exact Table.insert_fresh hnew.2.2
        rw [Table.row?_eq_some.mpr ⟨hr, hid⟩] at hfresh
        cases hfresh
  · exact ⟨r, (mem_upsert h hup).mpr (.inr ⟨hr, hid⟩), rfl, rfl⟩

end Slots

end Engramia.Credentials
