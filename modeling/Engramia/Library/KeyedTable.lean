import Engramia.Library.Relation

/-!
A table with a primary key. The constraint is a field, so a table with two
rows under one key cannot be written down, and the rows are addressed by key:
each statement is described by what it does to `row?`.
-/
namespace Engramia.Library

universe u v
variable {ρ : Type u} {κ : Type v}

structure Table (key : ρ → κ) where
  rows : List ρ
  unique : (rows.map key).Nodup

namespace Table
variable {key : ρ → κ} {p : ρ → Bool} {f : ρ → ρ}

/-- `UPDATE … SET f WHERE p`, for a statement that leaves the key alone. -/
def update (t : Table key) (p : ρ → Bool) (f : ρ → ρ) (hf : ∀ r, key (f r) = key r) :
    Table key where
  rows := updateWhere p f t.rows
  unique := by
    have hkeys : (updateWhere p f t.rows).map key = t.rows.map key := by
      rw [updateWhere, List.map_map]
      apply List.map_congr_left
      intro r _
      by_cases hp : p r = true
      · simp [hp, hf r]
      · simp [hp]
    rw [hkeys]
    exact t.unique

/-- `DELETE … WHERE p`. -/
def delete (t : Table key) (p : ρ → Bool) : Table key where
  rows := t.rows.filter fun r => !p r
  unique := t.unique.sublist (List.filter_sublist.map key)

/-- The rows an update answers with under `RETURNING`. -/
def returning (t : Table key) (p : ρ → Bool) (f : ρ → ρ) : List ρ :=
  (t.rows.filter p).map f

theorem returning_keys (t : Table key) (hf : ∀ r, key (f r) = key r) :
    (t.returning p f).map key = (t.rows.filter p).map key := by
  rw [returning, List.map_map]
  exact List.map_congr_left fun r _ => hf r

variable [DecidableEq κ]

def row? (t : Table key) (k : κ) : Option ρ :=
  t.rows.find? fun r => key r = k

/-- The insert fails on a key the table holds already. -/
def insert (t : Table key) (r : ρ) : Option (Table key) :=
  if h : key r ∈ t.rows.map key then none
  else
    some
      { rows := t.rows ++ [r]
        unique := by
          rw [List.map_append, List.nodup_append]
          refine ⟨t.unique, List.nodup_singleton _, ?_⟩
          intro k hk k' hk' heq
          rw [List.map_singleton, List.mem_singleton] at hk'
          exact h (by rw [← hk', ← heq]; exact hk) }

theorem row?_eq_some {t : Table key} {k : κ} {r : ρ} :
    t.row? k = some r ↔ r ∈ t.rows ∧ key r = k := by
  rw [row?, find?_eq_some_of_unique, decide_eq_true_iff]
  intro a ha b hb hka hkb
  have hkeys : key a = key b := by
    rw [of_decide_eq_true hka, of_decide_eq_true hkb]
  exact List.inj_on_of_nodup_map t.unique ha hb hkeys

theorem row?_eq_none {t : Table key} {k : κ} :
    t.row? k = none ↔ k ∉ t.rows.map key := by
  rw [row?, List.find?_eq_none, List.mem_map]
  constructor
  · rintro h ⟨r, hr, hk⟩
    have hne := h r hr
    simp [hk] at hne
  · intro h r hr
    by_contra hk
    exact h ⟨r, hr, by simpa using hk⟩

theorem row?_update (t : Table key) (hf : ∀ r, key (f r) = key r) (k : κ) :
    (t.update p f hf).row? k = (t.row? k).map fun r => if p r then f r else r :=
  find?_updateWhere fun r _ => by simp only [hf r]

theorem row?_update_of_some {t : Table key} {k : κ} {r : ρ} (h : t.row? k = some r)
    (hf : ∀ r, key (f r) = key r) :
    (t.update p f hf).row? k = some (if p r then f r else r) := by
  rw [row?_update, h, Option.map_some]

theorem row?_delete (t : Table key) (k : κ) :
    (t.delete p).row? k = (t.row? k).filter fun r => !p r := by
  apply Option.ext
  intro r
  rw [row?_eq_some, Option.filter_eq_some_iff, row?_eq_some, delete, List.mem_filter]
  exact and_right_comm

theorem row?_update_key (t : Table key) (hf : ∀ r, key (f r) = key r) (k k' : κ) :
    (t.update (fun r => key r = k) f hf).row? k' =
      if k' = k then (t.row? k).map f else t.row? k' := by
  rw [row?_update]
  by_cases hk : k' = k
  · rw [if_pos hk, hk]
    cases hrow : t.row? k with
    | none => rfl
    | some r => simp [(row?_eq_some.mp hrow).2]
  · rw [if_neg hk]
    cases hrow : t.row? k' with
    | none => rfl
    | some r => simp [(row?_eq_some.mp hrow).2, hk]

theorem row?_delete_key (t : Table key) (k k' : κ) :
    (t.delete fun r => key r = k).row? k' = if k' = k then none else t.row? k' := by
  rw [row?_delete]
  by_cases hk : k' = k
  · rw [if_pos hk, hk]
    cases hrow : t.row? k with
    | none => rfl
    | some r => simp [(row?_eq_some.mp hrow).2]
  · rw [if_neg hk]
    cases hrow : t.row? k' with
    | none => rfl
    | some r => simp [(row?_eq_some.mp hrow).2, hk]

theorem insert_fresh {t t' : Table key} {r : ρ} (h : t.insert r = some t') :
    t.row? (key r) = none := by
  rw [insert] at h
  split at h
  · cases h
  · rename_i hfresh
    exact row?_eq_none.mpr hfresh

theorem exists_insert {t : Table key} {r : ρ} (h : t.row? (key r) = none) :
    ∃ t', t.insert r = some t' :=
  ⟨_, dif_neg (row?_eq_none.mp h)⟩

theorem insert_eq_none {t : Table key} {r r' : ρ} (h : t.row? (key r) = some r') :
    t.insert r = none := by
  have hmem := row?_eq_some.mp h
  exact dif_pos (List.mem_map.mpr ⟨r', hmem⟩)

theorem mem_insert {t t' : Table key} {r x : ρ} (h : t.insert r = some t') :
    x ∈ t'.rows ↔ x ∈ t.rows ∨ x = r := by
  have hfresh := insert_fresh h
  rw [insert, dif_neg (row?_eq_none.mp hfresh)] at h
  cases h
  exact List.mem_append.trans (or_congr Iff.rfl List.mem_singleton)

theorem row?_insert {t t' : Table key} {r : ρ} (h : t.insert r = some t') (k : κ) :
    t'.row? k = if key r = k then some r else t.row? k := by
  have hfresh := insert_fresh h
  rw [insert, dif_neg (row?_eq_none.mp hfresh)] at h
  cases h
  change List.find? _ (t.rows ++ [r]) = _
  rw [List.find?_append]
  change (t.row? k).or _ = _
  by_cases hk : key r = k
  · have hnone : t.row? k = none := hk ▸ hfresh
    simp [hnone, hk]
  · simp [hk]

theorem delete_insert {t t' : Table key} {r : ρ} (h : t.insert r = some t')
    (hp : ∀ x, p x = true ↔ key x = key r) : t'.delete p = t := by
  have hfresh := row?_eq_none.mp (insert_fresh h)
  rw [insert, dif_neg hfresh] at h
  cases h
  have hold : ∀ x ∈ t.rows, (!p x) = true := by
    intro x hx
    rw [Bool.not_eq_true', ← Bool.not_eq_true, hp]
    exact fun heq => hfresh (List.mem_map.mpr ⟨x, hx, heq⟩)
  have hrows : (t.rows ++ [r]).filter (fun x => !p x) = t.rows := by
    rw [List.filter_append, List.filter_eq_self.mpr hold]
    simp [(hp r).mpr rfl]
  cases t with
  | mk rows unique =>
      rw [delete, mk.injEq]
      exact hrows

end Table

end Engramia.Library
