import Engramia.Library.KeyedTable

/-!
A table together with every version its rows have had. A statement is told by
the table it leaves; each row it has changed is a new version. Where every new
version has a stamp the row never had before, a stamp names one version.
-/
namespace Engramia.Library

universe u v w
variable {ρ : Type u} {κ : Type v} {τ : Type w}

structure Versioned (key : ρ → κ) where
  table : Table key
  /-- Oldest first. -/
  versions : κ → List ρ

namespace Versioned
variable {key : ρ → κ}

def empty : Versioned key := ⟨⟨[], List.nodup_nil⟩, fun _ => []⟩

variable [DecidableEq κ] [DecidableEq ρ]

def commit (s : Versioned key) (table : Table key) : Versioned key where
  table := table
  versions k :=
    if table.row? k = s.table.row? k then s.versions k
    else s.versions k ++ (table.row? k).toList

/-- The rows a statement has changed have stamps that their keys never had. -/
def FreshCommit (stamp : ρ → τ) (s : Versioned key) (table : Table key) : Prop :=
  ∀ r ∈ table.rows, s.table.row? (key r) = some r ∨
    ∀ v ∈ s.versions (key r), stamp v ≠ stamp r

structure Tracked (stamp : ρ → τ) (s : Versioned key) : Prop where
  current : ∀ r ∈ s.table.rows, (s.versions (key r)).getLast? = some r
  distinct : ∀ k, ((s.versions k).map stamp).Nodup
  keyed : ∀ k, ∀ v ∈ s.versions k, key v = k

variable {stamp : ρ → τ} {s : Versioned key} {table : Table key}

omit [DecidableEq κ] [DecidableEq ρ] in
theorem tracked_empty : Tracked stamp (empty : Versioned key) where
  current r hr := by cases hr
  distinct _ := List.nodup_nil
  keyed _ v hv := by cases hv

theorem versions_commit_of_same {k : κ} (h : table.row? k = s.table.row? k) :
    (s.commit table).versions k = s.versions k :=
  if_pos h

theorem versions_commit_of_changed {r : ρ} (hr : r ∈ table.rows)
    (h : s.table.row? (key r) ≠ some r) :
    (s.commit table).versions (key r) = s.versions (key r) ++ [r] := by
  have hrow : table.row? (key r) = some r := Table.row?_eq_some.mpr ⟨hr, rfl⟩
  have hchanged : ¬ table.row? (key r) = s.table.row? (key r) := by
    rw [hrow]
    exact fun heq => h heq.symm
  rw [commit]
  dsimp only
  rw [if_neg hchanged, hrow]
  rfl

theorem mem_versions_commit {k : κ} {v : ρ} (h : v ∈ (s.commit table).versions k) :
    v ∈ s.versions k ∨ v ∈ table.rows ∧ key v = k ∧ s.table.row? k ≠ some v := by
  rw [commit] at h
  dsimp only at h
  split at h
  · exact .inl h
  · rename_i hchanged
    cases List.mem_append.mp h with
    | inl hold => exact .inl hold
    | inr hnew =>
        have hrow : table.row? k = some v := Option.mem_toList.mp hnew
        obtain ⟨hv, hkey⟩ := Table.row?_eq_some.mp hrow
        exact .inr ⟨hv, hkey, fun heq => hchanged (hrow.trans heq.symm)⟩

theorem Tracked.commit (h : Tracked stamp s) (hfresh : FreshCommit stamp s table) :
    Tracked stamp (s.commit table) where
  current r hr := by
    change r ∈ table.rows at hr
    by_cases hsame : s.table.row? (key r) = some r
    · have hrow : table.row? (key r) = s.table.row? (key r) := by
        rw [hsame]
        exact Table.row?_eq_some.mpr ⟨hr, rfl⟩
      rw [versions_commit_of_same hrow]
      exact h.current r (Table.row?_eq_some.mp hsame).1
    · rw [versions_commit_of_changed hr hsame, List.getLast?_concat]
  distinct k := by
    rw [Versioned.commit]
    dsimp only
    split
    · exact h.distinct k
    · rename_i hchanged
      cases hrow : table.row? k with
      | none =>
          rw [Option.toList_none, List.append_nil]
          exact h.distinct k
      | some r =>
          obtain ⟨hr, hkey⟩ := Table.row?_eq_some.mp hrow
          have hnew : ∀ v ∈ s.versions k, stamp v ≠ stamp r := by
            subst hkey
            exact (hfresh r hr).resolve_left fun heq => hchanged (hrow.trans heq.symm)
          rw [Option.toList_some, List.map_append, List.map_singleton,
            ← List.concat_eq_append, List.nodup_concat]
          refine ⟨?_, h.distinct k⟩
          intro hmem
          obtain ⟨v, hv, hstamp⟩ := List.mem_map.mp hmem
          exact hnew v hv hstamp
  keyed k v hv := by
    cases mem_versions_commit hv with
    | inl hold => exact h.keyed k v hold
    | inr hnew => exact hnew.2.1

/-- What holds of every version holds after a statement whose changed rows have it. -/
theorem all_commit {P : ρ → Prop} (h : ∀ k, ∀ v ∈ s.versions k, P v)
    (hnew : ∀ r ∈ table.rows, s.table.row? (key r) = some r ∨ P r) :
    ∀ k, ∀ v ∈ (s.commit table).versions k, P v := by
  intro k v hv
  cases mem_versions_commit hv with
  | inl hold => exact h k v hold
  | inr hchanged =>
      obtain ⟨hv', rfl, hne⟩ := hchanged
      exact (hnew v hv').resolve_left hne

omit [DecidableEq κ] [DecidableEq ρ] in
/-- A stamp of the current row names no other version of it. -/
theorem Tracked.only (h : Tracked stamp s) {r v : ρ} (hr : r ∈ s.table.rows)
    (hv : v ∈ s.versions (key r)) (hstamp : stamp v = stamp r) : v = r :=
  List.inj_on_of_nodup_map (h.distinct (key r)) hv
    (List.mem_of_getLast? (h.current r hr)) hstamp

end Versioned

end Engramia.Library
