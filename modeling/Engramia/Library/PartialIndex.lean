import Engramia.Library.KeyedTable

/-!
A unique index on a column of those rows of a table that meet a condition, beside the primary key.
No two rows of the index have the same value in the column, so a value leads to one row at most.
-/
namespace Engramia.Library

universe u v w

/-- `CREATE UNIQUE INDEX … ON t (column) WHERE covers`. -/
structure PartialIndex (ρ : Type u) (γ : Type w) where
  covers : ρ → Bool
  column : ρ → γ

namespace PartialIndex
variable {ρ : Type u} {κ : Type v} {γ : Type w} {key : ρ → κ} [DecidableEq γ]
  {ix : PartialIndex ρ γ} {t t' : Table key} {r r' : ρ} {f : ρ → ρ} {c : γ} {k : κ}

section Definitions
variable (ix : PartialIndex ρ γ)

def holds (c : γ) (r : ρ) : Bool := ix.covers r && ix.column r = c

def Unique (t : Table key) : Prop :=
  ∀ r ∈ t.rows, ∀ r' ∈ t.rows, ix.covers r = true → ix.holds (ix.column r) r' = true → r' = r

def entryAt? (t : Table key) (c : γ) : Option ρ := t.rows.find? (ix.holds c)

/-- The row would stand in the index beside another one. -/
def clashes [DecidableEq κ] (t : Table key) (r : ρ) : Bool :=
  ix.covers r && t.rows.any fun r' => key r' ≠ key r && ix.holds (ix.column r) r'

/-- `UPDATE … SET f WHERE key = k`, which the index may not let through. -/
def updateRow [DecidableEq κ] (t : Table key) (k : κ) (f : ρ → ρ) (hf : ∀ r, key (f r) = key r) :
    Option (Table key) :=
  if (t.row? k).any fun r => ix.clashes t (f r) then none
  else some (t.update (fun r => key r = k) f hf)

end Definitions

@[simp] theorem holds_iff : ix.holds c r = true ↔ ix.covers r = true ∧ ix.column r = c := by
  rw [holds, Bool.and_eq_true, decide_eq_true_iff]

theorem entryAt?_eq_some (h : ix.Unique t) :
    ix.entryAt? t c = some r ↔ r ∈ t.rows ∧ ix.covers r = true ∧ ix.column r = c := by
  rw [entryAt?, find?_eq_some_of_unique, holds_iff]
  intro a ha b hb hold hold'
  rw [holds_iff] at hold hold'
  exact (h b hb a ha hold'.1 (holds_iff.mpr ⟨hold.1, hold.2.trans hold'.2.symm⟩))

theorem entryAt?_eq_none :
    ix.entryAt? t c = none ↔ ∀ r ∈ t.rows, ix.covers r = true → ix.column r ≠ c := by
  rw [entryAt?, List.find?_eq_none]
  constructor
  · intro h r hr hcovers hcolumn
    exact h r hr (holds_iff.mpr ⟨hcovers, hcolumn⟩)
  · intro h r hr hholds
    exact h r hr (holds_iff.mp hholds).1 (holds_iff.mp hholds).2

/-- The rows of a value are what it leads to. -/
theorem filter_holds (h : ix.Unique t) (c : γ) :
    t.rows.filter (ix.holds c) = (ix.entryAt? t c).toList := by
  have hnodup : (t.rows.filter (ix.holds c)).Nodup :=
    (List.Nodup.of_map key t.unique).filter _
  cases hentry : ix.entryAt? t c with
  | none =>
      rw [Option.toList_none, List.filter_eq_nil_iff]
      exact List.find?_eq_none.mp hentry
  | some r =>
      obtain ⟨hr, hcovers, hcolumn⟩ := (entryAt?_eq_some h).mp hentry
      have hone : ∀ x, x ∈ t.rows.filter (ix.holds c) ↔ x = r := by
        intro x
        rw [List.mem_filter]
        constructor
        · intro hx
          exact h r hr x hx.1 hcovers (hcolumn ▸ hx.2)
        · intro hx
          rw [hx]
          exact ⟨hr, holds_iff.mpr ⟨hcovers, hcolumn⟩⟩
      have hperm : (t.rows.filter (ix.holds c)).Perm [r] :=
        (List.perm_ext_iff_of_nodup hnodup (List.nodup_singleton r)).mpr fun x => by
          rw [hone x, List.mem_singleton]
      exact List.perm_singleton.mp hperm

theorem Unique.delete (h : ix.Unique t) (p : ρ → Bool) : ix.Unique (t.delete p) := by
  intro r hr r' hr'
  exact h r (List.mem_of_mem_filter hr) r' (List.mem_of_mem_filter hr')

theorem entryAt?_delete (h : ix.Unique t) (p : ρ → Bool) (c : γ) :
    ix.entryAt? (t.delete p) c = (ix.entryAt? t c).filter fun r => !p r := by
  apply Option.ext
  intro r
  rw [entryAt?_eq_some (h.delete p), Option.filter_eq_some_iff, entryAt?_eq_some h, Table.delete,
    List.mem_filter]
  exact and_right_comm

variable [DecidableEq κ]

theorem clashes_iff : ix.clashes t r = true ↔ ix.covers r = true ∧
    ∃ r' ∈ t.rows, key r' ≠ key r ∧ ix.covers r' = true ∧ ix.column r' = ix.column r := by
  simp [clashes]

/-- A row may enter where its value leads nowhere. -/
theorem Unique.insert (h : ix.Unique t) (hfree : ix.entryAt? t (ix.column r) = none)
    (hinsert : t.insert r = some t') : ix.Unique t' := by
  have hfree := entryAt?_eq_none.mp hfree
  intro a ha b hb hcovers hholds
  rw [holds_iff] at hholds
  cases (Table.mem_insert hinsert).mp ha with
  | inl ha =>
      cases (Table.mem_insert hinsert).mp hb with
      | inl hb => exact h a ha b hb hcovers (holds_iff.mpr hholds)
      | inr hb =>
          rw [hb] at hholds
          exact absurd hholds.2.symm (hfree a ha hcovers)
  | inr ha =>
      rw [ha] at hholds ⊢
      cases (Table.mem_insert hinsert).mp hb with
      | inl hb => exact absurd hholds.2 (hfree b hb hholds.1)
      | inr hb => exact hb

theorem entryAt?_insert (h : ix.Unique t) (hfree : ix.entryAt? t (ix.column r) = none)
    (hinsert : t.insert r = some t') (c : γ) :
    ix.entryAt? t' c = if ix.holds c r then some r else ix.entryAt? t c := by
  have hunique := h.insert hfree hinsert
  split
  case isTrue hholds =>
      rw [entryAt?_eq_some hunique, Table.mem_insert hinsert]
      exact ⟨.inr rfl, holds_iff.mp hholds⟩
  case isFalse hholds =>
      apply Option.ext
      intro x
      rw [entryAt?_eq_some hunique, entryAt?_eq_some h, Table.mem_insert hinsert]
      constructor
      · intro hx
        refine ⟨hx.1.resolve_right fun heq => hholds ?_, hx.2⟩
        exact holds_iff.mpr (heq ▸ hx.2)
      · intro hx
        exact ⟨.inl hx.1, hx.2⟩

theorem updateRow_eq_some {hf : ∀ r, key (f r) = key r} (h : ix.updateRow t k f hf = some t') :
    t' = t.update (fun r => key r = k) f hf ∧
      ∀ r, t.row? k = some r → ix.clashes t (f r) = false := by
  rw [updateRow] at h
  split at h
  case isTrue => cases h
  case isFalse hclash =>
      refine ⟨(Option.some.inj h).symm, fun r hr => ?_⟩
      rw [hr, Option.any_some, Bool.not_eq_true] at hclash
      exact hclash

theorem updateRow_eq_none {hf : ∀ r, key (f r) = key r} :
    ix.updateRow t k f hf = none ↔ ∃ r, t.row? k = some r ∧ ix.clashes t (f r) = true := by
  rw [updateRow]
  split
  case isTrue hclash => exact iff_of_true rfl ((Option.any_eq_true _ _).mp hclash)
  case isFalse hclash =>
      refine iff_of_false (fun h => by cases h) fun h => hclash ?_
      exact (Option.any_eq_true _ _).mpr h

theorem mem_update {hf : ∀ r, key (f r) = key r} {x : ρ} :
    x ∈ (t.update (fun r => key r = k) f hf).rows ↔
      x ∈ t.rows ∧ key x ≠ k ∨ ∃ r ∈ t.rows, key r = k ∧ x = f r := by
  simp only [Table.update, updateWhere, List.mem_map]
  constructor
  · intro h
    obtain ⟨r, hr, hx⟩ := h
    by_cases hk : key r = k
    · exact .inr ⟨r, hr, hk, by simpa [hk] using hx.symm⟩
    · have hsame : r = x := by simpa [hk] using hx
      exact .inl (hsame ▸ ⟨hr, hk⟩)
  · intro h
    cases h with
    | inl h => exact ⟨x, h.1, by simp [h.2]⟩
    | inr h =>
        obtain ⟨r, hr, hk, hx⟩ := h
        exact ⟨r, hr, by simp [hk, hx]⟩

theorem Unique.updateRow (h : ix.Unique t) {hf : ∀ r, key (f r) = key r}
    (hupdate : ix.updateRow t k f hf = some t') : ix.Unique t' := by
  obtain ⟨rfl, hfree⟩ := updateRow_eq_some hupdate
  -- An updated row meets no other row of its value.
  have hapart : ∀ r ∈ t.rows, key r = k → ∀ x ∈ t.rows, key x ≠ k → ix.covers (f r) = true →
      ix.covers x = true → ix.column x ≠ ix.column (f r) := by
    intro r hr hk x hx hkx hcovers hcovers' hcolumn
    have hclash := hfree r (Table.row?_eq_some.mpr ⟨hr, hk⟩)
    rw [← Bool.not_eq_true, clashes_iff] at hclash
    exact hclash ⟨hcovers, x, hx, by rwa [hf r, hk], hcovers', hcolumn⟩
  intro a ha b hb hcovers hholds
  rw [holds_iff] at hholds
  cases mem_update.mp ha with
  | inl ha =>
      cases mem_update.mp hb with
      | inl hb => exact h a ha.1 b hb.1 hcovers (holds_iff.mpr hholds)
      | inr hb =>
          obtain ⟨r, hr, hk, hb⟩ := hb
          rw [hb] at hholds
          exact absurd hholds.2.symm (hapart r hr hk a ha.1 ha.2 hholds.1 hcovers)
  | inr ha =>
      obtain ⟨r, hr, hk, ha⟩ := ha
      rw [ha] at hcovers hholds ⊢
      cases mem_update.mp hb with
      | inl hb => exact absurd hholds.2 (hapart r hr hk b hb.1 hb.2 hcovers hholds.1)
      | inr hb =>
          obtain ⟨r', hr', hk', hb⟩ := hb
          have hsame : r' = r := List.inj_on_of_nodup_map t.unique hr' hr (hk'.trans hk.symm)
          rw [hb, hsame]

theorem entryAt?_updateRow (h : ix.Unique t) {hf : ∀ r, key (f r) = key r}
    (hupdate : ix.updateRow t k f hf = some t') (c : γ) :
    ix.entryAt? t' c =
      if (t.row? k).any (fun r => ix.holds c (f r)) then (t.row? k).map f
      else (ix.entryAt? t c).filter fun r => key r ≠ k := by
  have hunique := h.updateRow hupdate
  obtain ⟨rfl, _⟩ := updateRow_eq_some hupdate
  split
  case isTrue hholds =>
      obtain ⟨r, hr, hholds⟩ := (Option.any_eq_true _ _).mp hholds
      rw [hr, Option.map_some, entryAt?_eq_some hunique, mem_update]
      obtain ⟨hmem, hk⟩ := Table.row?_eq_some.mp hr
      exact ⟨.inr ⟨r, hmem, hk, rfl⟩, holds_iff.mp hholds⟩
  case isFalse hholds =>
      apply Option.ext
      intro x
      rw [entryAt?_eq_some hunique, mem_update, Option.filter_eq_some_iff, entryAt?_eq_some h,
        decide_eq_true_iff]
      constructor
      · intro hx
        obtain ⟨hmem, hcovers, hcolumn⟩ := hx
        cases hmem with
        | inl hold => exact ⟨⟨hold.1, hcovers, hcolumn⟩, hold.2⟩
        | inr hnew =>
            obtain ⟨r, hr, hk, rfl⟩ := hnew
            apply absurd _ hholds
            rw [Table.row?_eq_some.mpr ⟨hr, hk⟩, Option.any_some]
            exact holds_iff.mpr ⟨hcovers, hcolumn⟩
      · intro hx
        exact ⟨.inl ⟨hx.1.1, hx.2⟩, hx.1.2⟩

end PartialIndex

end Engramia.Library
