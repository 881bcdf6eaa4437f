import Mathlib.Data.List.Basic
import Mathlib.Data.List.Nodup
import Mathlib.Algebra.BigOperators.Group.List.Basic
import Mathlib.Algebra.Ring.Nat

/-!
An insertion-ordered dictionary. Entries are kept oldest first and no key
occurs twice. `set` assigns in place; `put` makes the key the newest entry and
evicts the oldest beyond a bound, as least-recently-used caches do.

What a cache guarantees is a property of its entries: every operation below
leaves only entries that were there before, or the one just stored. What a
plain dictionary guarantees is a law for every lookup.
-/
namespace Engramia.Library

universe u v w

structure OrderedDict (κ : Type u) (ν : Type v) where
  entries : List (κ × ν)
  unique : (entries.map Prod.fst).Nodup

namespace OrderedDict
variable {κ : Type u} {ν : Type v}

def empty : OrderedDict κ ν := ⟨[], List.nodup_nil⟩

/-- Delete the keys that satisfy `p`. -/
def discard (d : OrderedDict κ ν) (p : κ → Bool) : OrderedDict κ ν where
  entries := d.entries.filter fun x => !p x.1
  unique := d.unique.sublist (List.filter_sublist.map _)

def mapValues {ω : Type w} (d : OrderedDict κ ν) (f : κ → ν → ω) : OrderedDict κ ω where
  entries := d.entries.map fun x => (x.1, f x.1 x.2)
  unique := by
    rw [List.map_map]
    exact d.unique

theorem mem_mapValues {ω : Type w} {d : OrderedDict κ ν} {f : κ → ν → ω} {x : κ × ω} :
    x ∈ (d.mapValues f).entries ↔ ∃ v, (x.1, v) ∈ d.entries ∧ x.2 = f x.1 v := by
  rw [mapValues, List.mem_map]
  constructor
  · intro h
    obtain ⟨y, hy, rfl⟩ := h
    exact ⟨y.2, hy, rfl⟩
  · intro h
    obtain ⟨v, hv, hx⟩ := h
    exact ⟨(x.1, v), hv, by rw [← hx]⟩

variable [DecidableEq κ]

def get? (d : OrderedDict κ ν) (k : κ) : Option ν :=
  (d.entries.find? fun x => x.1 = k).map Prod.snd

/-- Store a value as the newest entry, then evict down to `max` entries. -/
def put (d : OrderedDict κ ν) (max : Nat) (k : κ) (v : ν) : OrderedDict κ ν :=
  let entries := (d.discard (· = k)).entries ++ [(k, v)]
  { entries := entries.drop (entries.length - max)
    unique := by
      apply List.Nodup.sublist ((List.drop_sublist _ entries).map Prod.fst)
      rw [List.map_append, List.nodup_append]
      refine ⟨(d.discard (· = k)).unique, List.nodup_singleton _, ?_⟩
      rintro a ha b hb rfl
      obtain ⟨x, hx, rfl⟩ := List.mem_map.mp ha
      rw [List.map_singleton, List.mem_singleton] at hb
      simp [discard, hb] at hx }

/-- Make an entry the newest one. -/
def moveToEnd (d : OrderedDict κ ν) (k : κ) : OrderedDict κ ν :=
  match d.get? k with
  | some v => d.put (d.entries.length + 1) k v
  | none => d

variable {d : OrderedDict κ ν} {k : κ} {v : ν} {max : Nat} {x : κ × ν}

theorem mem_of_get? (h : d.get? k = some v) : (k, v) ∈ d.entries := by
  obtain ⟨y, hy, rfl⟩ := Option.map_eq_some_iff.mp h
  have hk : y.1 = k := by simpa using List.find?_some hy
  rw [← hk]
  exact List.mem_of_find?_eq_some hy

omit [DecidableEq κ] in
theorem mem_discard {p : κ → Bool} :
    x ∈ (d.discard p).entries ↔ x ∈ d.entries ∧ p x.1 = false := by
  simp [discard]

theorem mem_put (h : x ∈ (d.put max k v).entries) : x ∈ d.entries ∨ x = (k, v) := by
  have hx := List.mem_of_mem_drop h
  rcases List.mem_append.mp hx with hx | hx
  · exact .inl (mem_discard.mp hx).1
  · exact .inr (List.mem_singleton.mp hx)

theorem mem_moveToEnd (h : x ∈ (d.moveToEnd k).entries) : x ∈ d.entries := by
  rw [moveToEnd] at h
  cases hget : d.get? k with
  | none => simpa only [hget] using h
  | some v =>
      simp only [hget] at h
      rcases mem_put h with hx | rfl
      · exact hx
      · exact mem_of_get? hget

/-- A property of every entry. -/
def All (P : κ → ν → Prop) (d : OrderedDict κ ν) : Prop :=
  ∀ x ∈ d.entries, P x.1 x.2

variable {P Q : κ → ν → Prop}

omit [DecidableEq κ] in
theorem all_empty : (empty : OrderedDict κ ν).All P :=
  fun _ hx => nomatch hx

omit [DecidableEq κ] in
theorem All.mono (h : d.All P) (hPQ : ∀ k v, P k v → Q k v) : d.All Q :=
  fun x hx => hPQ _ _ (h x hx)

theorem All.get? (h : d.All P) (hget : d.get? k = some v) : P k v :=
  h _ (mem_of_get? hget)

omit [DecidableEq κ] in
theorem All.discard (h : d.All P) (p : κ → Bool) : (d.discard p).All P :=
  fun x hx => h x (mem_discard.mp hx).1

theorem All.put (h : d.All P) (max : Nat) (hnew : P k v) : (d.put max k v).All P := by
  intro x hx
  rcases mem_put hx with hx | rfl
  · exact h x hx
  · exact hnew

theorem All.moveToEnd (h : d.All P) (k : κ) : (d.moveToEnd k).All P :=
  fun x hx => h x (mem_moveToEnd hx)

section Dictionary

omit [DecidableEq κ] in
theorem ext_entries {d e : OrderedDict κ ν} (h : d.entries = e.entries) : d = e := by
  cases d
  cases e
  cases h
  rfl

/-- Assign in place, or append a key that is new. -/
def set (d : OrderedDict κ ν) (k : κ) (v : ν) : OrderedDict κ ν where
  entries :=
    if k ∈ d.entries.map Prod.fst then
      d.entries.map fun x => if x.1 = k then (k, v) else x
    else d.entries ++ [(k, v)]
  unique := by
    split
    · have hkeys : (d.entries.map fun x => if x.1 = k then (k, v) else x).map Prod.fst =
          d.entries.map Prod.fst := by
        rw [List.map_map]
        apply List.map_congr_left
        intro x _
        by_cases hx : x.1 = k <;> simp [hx]
      rw [hkeys]
      exact d.unique
    · rename_i hk
      rw [List.map_append, List.nodup_append]
      refine ⟨d.unique, List.nodup_singleton _, ?_⟩
      intro a ha b hb hab
      rw [List.map_singleton, List.mem_singleton] at hb
      rw [hab, hb] at ha
      exact hk ha

/-- Assign the entries of another dictionary in their order. -/
def update (d e : OrderedDict κ ν) : OrderedDict κ ν :=
  e.entries.foldl (fun d x => d.set x.1 x.2) d

theorem set_entries_of_mem (hk : k ∈ d.entries.map Prod.fst) :
    (d.set k v).entries = d.entries.map fun x => if x.1 = k then (k, v) else x :=
  if_pos hk

theorem set_entries_of_not_mem (hk : k ∉ d.entries.map Prod.fst) :
    (d.set k v).entries = d.entries ++ [(k, v)] :=
  if_neg hk

theorem mem_set {x : κ × ν} :
    x ∈ (d.set k v).entries ↔ x = (k, v) ∨ (x ∈ d.entries ∧ x.1 ≠ k) := by
  by_cases hk : k ∈ d.entries.map Prod.fst
  · rw [set_entries_of_mem hk, List.mem_map]
    constructor
    · intro h
      obtain ⟨y, hy, rfl⟩ := h
      by_cases hyk : y.1 = k
      · simp [hyk]
      · simp [hyk, hy]
    · intro h
      cases h with
      | inl h =>
          obtain ⟨y, hy, hyk⟩ := List.mem_map.mp hk
          exact ⟨y, hy, by rw [if_pos hyk, h]⟩
      | inr h => exact ⟨x, h.1, by rw [if_neg h.2]⟩
  · rw [set_entries_of_not_mem hk, List.mem_append, List.mem_singleton]
    have hne : x ∈ d.entries → x.1 ≠ k :=
      fun hx hxk => hk (hxk ▸ List.mem_map_of_mem hx)
    constructor
    · intro h
      cases h with
      | inl h => exact .inr ⟨h, hne h⟩
      | inr h => exact .inl h
    · intro h
      cases h with
      | inl h => exact .inr h
      | inr h => exact .inl h.1

theorem get?_eq_some : d.get? k = some v ↔ (k, v) ∈ d.entries := by
  constructor
  · exact mem_of_get?
  · intro h
    have hfind : d.entries.find? (fun x => x.1 = k) = some (k, v) := by
      cases hf : d.entries.find? (fun x => x.1 = k) with
      | none => simpa using List.find?_eq_none.mp hf _ h
      | some y =>
          have hy : y ∈ d.entries := List.mem_of_find?_eq_some hf
          have hyk : y.1 = k := by simpa using List.find?_some hf
          rw [List.inj_on_of_nodup_map d.unique hy h hyk]
    rw [get?, hfind]
    rfl

theorem get?_eq_iff {e : OrderedDict κ ν} {k k' : κ} :
    d.get? k = e.get? k' ↔ ∀ v, (k, v) ∈ d.entries ↔ (k', v) ∈ e.entries := by
  rw [Option.ext_iff]
  exact forall_congr' fun v => iff_congr get?_eq_some get?_eq_some

theorem mem_keys : k ∈ d.entries.map Prod.fst ↔ ∃ v, d.get? k = some v := by
  rw [List.mem_map]
  constructor
  · intro h
    obtain ⟨x, hx, rfl⟩ := h
    exact ⟨x.2, get?_eq_some.mpr hx⟩
  · intro h
    obtain ⟨v, hv⟩ := h
    exact ⟨(k, v), get?_eq_some.mp hv, rfl⟩

theorem keys_perm {e : OrderedDict κ ν} (h : ∀ k, d.get? k = e.get? k) :
    (d.entries.map Prod.fst).Perm (e.entries.map Prod.fst) := by
  rw [List.perm_ext_iff_of_nodup d.unique e.unique]
  intro k
  rw [mem_keys, mem_keys, h]

theorem get?_set (k' : κ) :
    (d.set k v).get? k' = if k' = k then some v else d.get? k' := by
  by_cases hk : k' = k
  · rw [if_pos hk, get?_eq_some, mem_set, hk]
    exact .inl rfl
  · rw [if_neg hk, get?_eq_iff]
    intro w
    rw [mem_set]
    simp [hk]

theorem get?_discard {p : κ → Bool} (k' : κ) :
    (d.discard p).get? k' = if p k' then none else d.get? k' := by
  by_cases hp : p k' = true
  · rw [if_pos hp, Option.eq_none_iff_forall_ne_some]
    intro w hw
    rw [get?_eq_some, mem_discard, hp] at hw
    cases hw.2
  · rw [if_neg hp, get?_eq_iff]
    intro w
    rw [mem_discard]
    simp [hp]

theorem get?_put_self (hmax : 0 < max) : (d.put max k v).get? k = some v := by
  rw [get?_eq_some, put]
  have hdrop : ∀ (xs : List (κ × ν)) n, n ≤ xs.length → (k, v) ∈ (xs ++ [(k, v)]).drop n := by
    intro xs n hn
    rw [List.drop_append_of_le_length hn]
    exact List.mem_append_right _ (List.mem_singleton_self _)
  apply hdrop
  rw [List.length_append, List.length_singleton]
  omega

theorem get?_of_put {k' : κ} {v' : ν} (hk : k' ≠ k) (h : (d.put max k v).get? k' = some v') :
    d.get? k' = some v' := by
  rw [get?_eq_some] at h ⊢
  cases mem_put h with
  | inl hold => exact hold
  | inr heq => exact absurd (congrArg Prod.fst heq) hk

omit [DecidableEq κ] in
theorem length_le_of_subset {e : OrderedDict κ ν} (h : ∀ x ∈ e.entries, x ∈ d.entries) :
    e.entries.length ≤ d.entries.length :=
  List.Nodup.length_le_of_subset (List.Nodup.of_map Prod.fst e.unique) h

/-- Assign in place, then evict the oldest entries beyond `max`. -/
def assign (d : OrderedDict κ ν) (max : Nat) (k : κ) (v : ν) : OrderedDict κ ν where
  entries := (d.set k v).entries.drop ((d.set k v).entries.length - max)
  unique := (d.set k v).unique.sublist ((List.drop_sublist _ _).map Prod.fst)

theorem get?_set_of_assign {k' : κ} {v' : ν} (h : (d.assign max k v).get? k' = some v') :
    (d.set k v).get? k' = some v' := by
  rw [get?_eq_some] at h ⊢
  exact List.mem_of_mem_drop h

theorem get?_of_assign {k' : κ} {v' : ν} (hk : k' ≠ k)
    (h : (d.assign max k v).get? k' = some v') : d.get? k' = some v' := by
  have hset := get?_set_of_assign h
  rwa [get?_set, if_neg hk] at hset

theorem eq_of_get?_assign {v' : ν} (h : (d.assign max k v).get? k = some v') : v' = v := by
  have hset := get?_set_of_assign h
  rw [get?_set, if_pos rfl, Option.some.injEq] at hset
  exact hset.symm

theorem length_assign_le : (d.assign max k v).entries.length ≤ max := by
  rw [assign, List.length_drop]
  omega

/-- In a dictionary within its bound the assigned entry is not the one evicted. -/
theorem get?_assign_self (hlen : d.entries.length ≤ max) (hmax : 0 < max) :
    (d.assign max k v).get? k = some v := by
  rw [get?_eq_some]
  change (k, v) ∈ (d.set k v).entries.drop ((d.set k v).entries.length - max)
  by_cases hk : k ∈ d.entries.map Prod.fst
  · have hsame : (d.set k v).entries.length = d.entries.length := by
      rw [set_entries_of_mem hk, List.length_map]
    have hnone : (d.set k v).entries.length - max = 0 := by omega
    rw [hnone, List.drop_zero, mem_set]
    exact .inl rfl
  · rw [set_entries_of_not_mem hk, List.length_append, List.length_singleton,
      List.drop_append_of_le_length (by omega)]
    exact List.mem_append_right _ (List.mem_singleton_self _)

theorem get?_mapValues {ω : Type w} {f : κ → ν → ω} :
    (d.mapValues f).get? k = (d.get? k).map (f k) := by
  ext w
  rw [get?_eq_some, mem_mapValues, Option.map_eq_some_iff]
  apply exists_congr
  intro v
  rw [get?_eq_some, eq_comm]

theorem all_iff_get? : d.All P ↔ ∀ k v, d.get? k = some v → P k v := by
  constructor
  · intro h k v hv
    exact h.get? hv
  · intro h x hx
    exact h x.1 x.2 (get?_eq_some.mpr hx)

theorem all_set : (d.set k v).All P ↔ P k v ∧ d.All fun k' v' => k' ≠ k → P k' v' := by
  constructor
  · intro h
    refine ⟨h (k, v) (mem_set.mpr (.inl rfl)), ?_⟩
    intro x hx hk
    exact h x (mem_set.mpr (.inr ⟨hx, hk⟩))
  · intro h x hx
    cases mem_set.mp hx with
    | inl heq => rw [heq]; exact h.1
    | inr hold => exact h.2 x hold.1 hold.2

theorem update_singleton : d.update (empty.set k v) = d.set k v := by
  rw [update, set_entries_of_not_mem List.not_mem_nil]
  rfl

/-- Assigning outside the discarded keys commutes with the discarding. -/
theorem discard_set {p : κ → Bool} (hp : p k = false) :
    (d.set k v).discard p = (d.discard p).set k v := by
  apply ext_entries
  have hkeys : k ∈ (d.discard p).entries.map Prod.fst ↔ k ∈ d.entries.map Prod.fst := by
    simp [discard, hp]
  by_cases hk : k ∈ d.entries.map Prod.fst
  · rw [set_entries_of_mem (hkeys.mpr hk)]
    simp only [discard, set_entries_of_mem hk, List.filter_map]
    congr 1
    apply List.filter_congr
    intro x _
    by_cases hx : x.1 = k <;> simp [hx]
  · rw [set_entries_of_not_mem fun h => hk (hkeys.mp h)]
    simp [discard, set_entries_of_not_mem hk, hp]

theorem discard_set_of_discarded {p : κ → Bool} (hp : p k = true) :
    (d.set k v).discard p = d.discard p := by
  apply ext_entries
  by_cases hk : k ∈ d.entries.map Prod.fst
  · simp only [discard, set_entries_of_mem hk]
    clear hk
    induction d.entries with
    | nil => rfl
    | cons x xs ih =>
        rw [List.map_cons, List.filter_cons, List.filter_cons, ih]
        by_cases hx : x.1 = k <;> simp [hx, hp]
  · simp [discard, set_entries_of_not_mem hk, hp]

theorem perm_of_get? (h : d.get? k = some v) :
    d.entries.Perm ((k, v) :: (d.discard (· = k)).entries) := by
  have hkeys : ∀ x ∈ d.entries, x.1 = k ↔ x = (k, v) := by
    intro x hx
    constructor
    · intro hk
      have hx' : (k, x.2) ∈ d.entries := by rw [← hk]; exact hx
      rw [← get?_eq_some, h] at hx'
      rw [Option.some.inj hx', ← hk]
    · intro heq
      rw [heq]
  rw [List.perm_ext_iff_of_nodup (List.Nodup.of_map _ d.unique)]
  · intro x
    rw [List.mem_cons, mem_discard]
    constructor
    · intro hx
      by_cases hk : x.1 = k
      · exact .inl ((hkeys x hx).mp hk)
      · exact .inr ⟨hx, decide_eq_false hk⟩
    · intro hx
      cases hx with
      | inl heq => rw [heq]; exact get?_eq_some.mp h
      | inr hx => exact hx.1
  · refine List.nodup_cons.mpr ⟨?_, List.Nodup.of_map _ (d.discard _).unique⟩
    intro hmem
    exact absurd (mem_discard.mp hmem).2 (by simp)

theorem set_perm : (d.set k v).entries.Perm ((k, v) :: (d.discard (· = k)).entries) := by
  have hself : (d.set k v).get? k = some v := by rw [get?_set, if_pos rfl]
  have hperm := perm_of_get? hself
  rwa [discard_set_of_discarded (p := (· = k)) (decide_eq_true rfl)] at hperm

theorem discard_of_get?_none (h : d.get? k = none) : d.discard (· = k) = d := by
  apply ext_entries
  rw [discard, List.filter_eq_self]
  intro x hx
  have hk : x.1 ≠ k := by
    intro hk
    have hx' : (k, x.2) ∈ d.entries := by rw [← hk]; exact hx
    rw [← get?_eq_some, h] at hx'
    cases hx'
  simpa using hk

/-- The sum of a weight over the values. -/
def weight (f : ν → Nat) (d : OrderedDict κ ν) : Nat :=
  (d.entries.map fun x => f x.2).sum

theorem weight_of_get? (f : ν → Nat) (h : d.get? k = some v) :
    d.weight f = f v + (d.discard (· = k)).weight f := by
  rw [weight, ((perm_of_get? h).map _).sum_eq, List.map_cons, List.sum_cons]
  rfl

theorem weight_set (f : ν → Nat) : (d.set k v).weight f = f v + (d.discard (· = k)).weight f := by
  rw [weight, (set_perm.map _).sum_eq, List.map_cons, List.sum_cons]
  rfl

omit [DecidableEq κ] in
theorem discard_discard (p q : κ → Bool) :
    (d.discard p).discard q = (d.discard q).discard p := by
  apply ext_entries
  simp only [discard, List.filter_filter]
  congr 1
  funext x
  exact Bool.and_comm _ _

omit [DecidableEq κ] in
theorem discard_of_subset {p q : κ → Bool} (h : ∀ k, q k = true → p k = true) :
    (d.discard q).discard p = d.discard p := by
  apply ext_entries
  simp only [discard, List.filter_filter]
  apply List.filter_congr
  intro x _
  cases hq : q x.1 with
  | false => simp
  | true => simp [h x.1 hq]

end Dictionary

end OrderedDict

end Engramia.Library
