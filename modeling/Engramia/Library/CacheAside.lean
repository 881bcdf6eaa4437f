import Engramia.Library.Run
import Mathlib.Logic.Function.Basic

/-!
A cache beside a table that changes. A lookup probes the cache, reads the table
when it finds nothing, and later puts what it read into the cache. A change is
committed to the table, and later its maker drops entries and returns.

Only times matter here: the clock counts commits, an entry is known by the time
its value was read, and a key by the newest change of it whose maker has
returned. An entry is stale when it is older than that. Lookups that miss are
never stale, and a lookup is answered with a stale entry exactly if one is there.
-/
namespace Engramia.Library

universe u v w
variable {κ : Type u} {θ : Type v} {ω : Type w}

/-- A lookup under way: its key, the change it has to know of, and the time it read the
table. -/
structure Lookup (κ : Type u) where
  key : κ
  since : Nat
  readAt : Option Nat

/-- A committed change whose maker has not returned yet. -/
structure PendingChange (κ : Type u) where
  time : Nat
  changed : κ → Bool

@[ext]
structure CacheTimes (κ : Type u) (θ : Type v) (ω : Type w) where
  clock : Nat
  settled : κ → Nat
  entry : κ → Option Nat
  lookup : θ → Option (Lookup κ)
  change : ω → Option (PendingChange κ)

/-- A step may drop entries besides what it does. -/
inductive CacheStep (κ : Type u) (θ : Type v) (ω : Type w) where
  | probe (t : θ) (k : κ) (dropped : κ → Bool)
  | read (t : θ)
  | put (t : θ) (dropped : κ → Bool)
  | quit (t : θ) (dropped : κ → Bool)
  | commit (changed : κ → Bool) (maker : Option ω)
  | settle (c : ω) (dropped : κ → Bool)
  | skip

def keepEntries (dropped : κ → Bool) (entry : κ → Option Nat) (k : κ) : Option Nat :=
  if dropped k then none else entry k

section Steps
variable [DecidableEq κ] [DecidableEq θ] [DecidableEq ω]

def settleKeys (p : PendingChange κ) (settled : κ → Nat) (k : κ) : Nat :=
  if p.changed k then max (settled k) p.time else settled k

def cacheStep (s : CacheTimes κ θ ω) : CacheStep κ θ ω → CacheTimes κ θ ω
  | .probe t k dropped =>
      { s with
        entry := keepEntries dropped s.entry
        lookup := Function.update s.lookup t (some ⟨k, s.settled k, none⟩) }
  | .read t =>
      match s.lookup t with
      | some l =>
          { s with lookup := Function.update s.lookup t (some { l with readAt := some s.clock }) }
      | none => s
  | .put t dropped =>
      match s.lookup t with
      | some ⟨k, _, some time⟩ =>
          { s with
            entry := keepEntries dropped (Function.update s.entry k (some time))
            lookup := Function.update s.lookup t none }
      | _ => s
  | .quit t dropped =>
      { s with
        entry := keepEntries dropped s.entry
        lookup := Function.update s.lookup t none }
  | .commit changed maker =>
      { s with
        clock := s.clock + 1
        change :=
          match maker with
          | some c => Function.update s.change c (some ⟨s.clock + 1, changed⟩)
          | none => s.change }
  | .settle c dropped =>
      match s.change c with
      | some p =>
          { s with
            settled := settleKeys p s.settled
            entry := keepEntries dropped s.entry
            change := Function.update s.change c none }
      | none => s
  | .skip => s

def NoStale (s : CacheTimes κ θ ω) : Prop :=
  ∀ k time, s.entry k = some time → s.settled k ≤ time

/-- A put comes before the return of whoever changed the key since it was read, and a maker
that returns leaves no entry that is older than its change. -/
def InTime (s : CacheTimes κ θ ω) : CacheStep κ θ ω → Prop
  | .put t dropped => ∀ k since time, s.lookup t = some ⟨k, since, some time⟩ →
      dropped k = false → s.settled k ≤ time
  | .settle c dropped => ∀ p, s.change c = some p → ∀ k time, p.changed k = true →
      dropped k = false → s.entry k = some time → p.time ≤ time
  | _ => True

/-- Nothing is dated ahead of the clock, and no lookup has read before it had to. -/
structure Dated (s : CacheTimes κ θ ω) : Prop where
  settled : ∀ k, s.settled k ≤ s.clock
  change : ∀ c p, s.change c = some p → p.time ≤ s.clock
  lookup : ∀ t l, s.lookup t = some l → l.since ≤ s.clock
  readAt : ∀ t l time, s.lookup t = some l → l.readAt = some time →
    l.since ≤ time ∧ time ≤ s.clock
  entry : ∀ k time, s.entry k = some time → time ≤ s.clock

variable {s : CacheTimes κ θ ω}

omit [DecidableEq κ] in
theorem keepEntries_eq_some {dropped : κ → Bool} {entry : κ → Option Nat} {k : κ} {time : Nat} :
    keepEntries dropped entry k = some time ↔ dropped k = false ∧ entry k = some time := by
  rw [keepEntries]
  cases dropped k with
  | false => simp
  | true => simp

omit [DecidableEq κ] in
theorem settleKeys_le {p : PendingChange κ} {settled : κ → Nat} {k : κ} {time : Nat} :
    settleKeys p settled k ≤ time ↔
      settled k ≤ time ∧ (p.changed k = true → p.time ≤ time) := by
  rw [settleKeys]
  cases p.changed k with
  | false => simp
  | true =>
      simp only [if_true, true_imp_iff]
      omega

omit [DecidableEq κ] in
theorem lookup_of_update_none {lookup : θ → Option (Lookup κ)} {t t' : θ} {l : Lookup κ}
    (h : Function.update lookup t none t' = some l) : lookup t' = some l := by
  by_cases ht : t' = t
  · rw [ht, Function.update_self] at h
    cases h
  · rwa [Function.update_of_ne ht] at h

omit [DecidableEq κ] [DecidableEq ω] in
theorem Dated.drop (h : Dated s) (t : θ) (dropped : κ → Bool) :
    Dated { s with
      entry := keepEntries dropped s.entry
      lookup := Function.update s.lookup t none } where
  settled := h.settled
  change := h.change
  lookup t' l hl := h.lookup t' l (lookup_of_update_none hl)
  readAt t' l time hl := h.readAt t' l time (lookup_of_update_none hl)
  entry k time hk := h.entry k time (keepEntries_eq_some.mp hk).2

theorem Dated.probe (h : Dated s) (t : θ) (k : κ) (dropped : κ → Bool) :
    Dated (cacheStep s (.probe t k dropped)) := by
  have hlookup : ∀ t' l, Function.update s.lookup t (some ⟨k, s.settled k, none⟩) t' = some l →
      l = ⟨k, s.settled k, none⟩ ∨ s.lookup t' = some l := by
    intro t' l hl
    by_cases ht : t' = t
    · rw [ht, Function.update_self] at hl
      exact .inl (Option.some.inj hl).symm
    · rw [Function.update_of_ne ht] at hl
      exact .inr hl
  refine ⟨h.settled, h.change, ?_, ?_,
    fun k time hk => h.entry k time (keepEntries_eq_some.mp hk).2⟩
  · intro t' l hl
    cases hlookup t' l hl with
    | inl heq => rw [heq]; exact h.settled k
    | inr hold => exact h.lookup t' l hold
  · intro t' l time hl htime
    cases hlookup t' l hl with
    | inl heq =>
        rw [heq] at htime
        cases htime
    | inr hold => exact h.readAt t' l time hold htime

theorem Dated.read (h : Dated s) (t : θ) : Dated (cacheStep s (.read t)) := by
  rw [cacheStep]
  cases hlookup : s.lookup t with
  | none => exact h
  | some l =>
      have hsince := h.lookup t l hlookup
      refine ⟨h.settled, h.change, ?_, ?_, h.entry⟩
      · intro t' l' hl
        by_cases ht : t' = t
        · simp only [ht, Function.update_self] at hl
          cases hl
          exact hsince
        · simp only [Function.update_of_ne ht] at hl
          exact h.lookup t' l' hl
      · intro t' l' time hl htime
        by_cases ht : t' = t
        · simp only [ht, Function.update_self] at hl
          cases hl
          cases htime
          exact ⟨hsince, Nat.le_refl _⟩
        · simp only [Function.update_of_ne ht] at hl
          exact h.readAt t' l' time hl htime

theorem Dated.put (h : Dated s) (t : θ) (dropped : κ → Bool) :
    Dated (cacheStep s (.put t dropped)) := by
  rw [cacheStep]
  split
  · rename_i k since time hlookup
    have hdrop := h.drop t fun _ => false
    refine ⟨h.settled, h.change, hdrop.lookup, hdrop.readAt, ?_⟩
    intro k' time' hk
    have hentry := (keepEntries_eq_some.mp hk).2
    by_cases hkk : k' = k
    · rw [hkk, Function.update_self] at hentry
      cases hentry
      exact (h.readAt t _ time hlookup rfl).2
    · rw [Function.update_of_ne hkk] at hentry
      exact h.entry k' time' hentry
  · exact h

theorem Dated.commit (h : Dated s) (changed : κ → Bool) (maker : Option ω) :
    Dated (cacheStep s (.commit changed maker)) where
  settled k := Nat.le_succ_of_le (h.settled k)
  change c p hp := by
    have hold : ∀ c, s.change c = some p → p.time ≤ s.clock + 1 :=
      fun c hc => Nat.le_succ_of_le (h.change c p hc)
    cases maker with
    | none => exact hold c hp
    | some c' =>
        by_cases hc : c = c'
        · simp only [cacheStep, hc, Function.update_self] at hp
          cases hp
          exact Nat.le_refl _
        · simp only [cacheStep, Function.update_of_ne hc] at hp
          exact hold c hp
  lookup t l hl := Nat.le_succ_of_le (h.lookup t l hl)
  readAt t l time hl htime :=
    ⟨(h.readAt t l time hl htime).1, Nat.le_succ_of_le (h.readAt t l time hl htime).2⟩
  entry k time hk := Nat.le_succ_of_le (h.entry k time hk)

theorem Dated.settle (h : Dated s) (c : ω) (dropped : κ → Bool) :
    Dated (cacheStep s (.settle c dropped)) := by
  rw [cacheStep]
  cases hchange : s.change c with
  | none => exact h
  | some p =>
      refine ⟨?_, ?_, h.lookup, h.readAt,
        fun k time hk => h.entry k time (keepEntries_eq_some.mp hk).2⟩
      · intro k
        exact settleKeys_le.mpr ⟨h.settled k, fun _ => h.change c p hchange⟩
      · intro c' p' hp
        by_cases hc : c' = c
        · simp only [hc, Function.update_self] at hp
          cases hp
        · simp only [Function.update_of_ne hc] at hp
          exact h.change c' p' hp

theorem Dated.step (h : Dated s) (a : CacheStep κ θ ω) : Dated (cacheStep s a) := by
  cases a with
  | probe t k dropped => exact h.probe t k dropped
  | read t => exact h.read t
  | put t dropped => exact h.put t dropped
  | quit t dropped => exact h.drop t dropped
  | commit changed maker => exact h.commit changed maker
  | settle c dropped => exact h.settle c dropped
  | skip => exact h

omit [DecidableEq κ] [DecidableEq θ] [DecidableEq ω] in
/-- Dropping entries leaves none stale. -/
theorem NoStale.drop (h : NoStale s) {dropped : κ → Bool} {k : κ} {time : Nat}
    (hk : keepEntries dropped s.entry k = some time) : s.settled k ≤ time :=
  h k time (keepEntries_eq_some.mp hk).2

/-- A step leaves a cache without stale entries so exactly when it is in time. -/
theorem noStale_cacheStep_iff (h : NoStale s) (a : CacheStep κ θ ω) :
    NoStale (cacheStep s a) ↔ InTime s a := by
  cases a with
  | probe t k dropped => exact iff_of_true (fun _ _ hk => h.drop hk) trivial
  | quit t dropped => exact iff_of_true (fun _ _ hk => h.drop hk) trivial
  | commit changed maker => exact iff_of_true h trivial
  | skip => exact iff_of_true h trivial
  | read t =>
      refine iff_of_true ?_ trivial
      rw [cacheStep]
      cases s.lookup t with
      | none => exact h
      | some l => exact h
  | put t dropped =>
      rw [cacheStep, InTime]
      split
      · rename_i k since time hlookup
        constructor
        · intro hnext k' since' time' hl hkeep
          rw [hlookup] at hl
          cases hl
          apply hnext k time
          rw [keepEntries_eq_some, Function.update_self]
          exact ⟨hkeep, rfl⟩
        · intro hfree k' time' hk
          obtain ⟨hkeep, hentry⟩ := keepEntries_eq_some.mp hk
          by_cases hkk : k' = k
          · subst hkk
            rw [Function.update_self] at hentry
            cases hentry
            exact hfree k' since time hlookup hkeep
          · rw [Function.update_of_ne hkk] at hentry
            exact h k' time' hentry
      · rename_i hnone
        refine iff_of_true h ?_
        intro k since time hl
        exact absurd hl (hnone k since time)
  | settle c dropped =>
      rw [cacheStep, InTime]
      cases hchange : s.change c with
      | none =>
          refine iff_of_true h ?_
          intro p hp
          cases hp
      | some p =>
          constructor
          · intro hnext p' hp k time hchanged hkeep hk
            cases hp
            have hle := hnext k time (keepEntries_eq_some.mpr ⟨hkeep, hk⟩)
            exact (settleKeys_le.mp hle).2 hchanged
          · intro hfree k time hk
            obtain ⟨hkeep, hentry⟩ := keepEntries_eq_some.mp hk
            exact settleKeys_le.mpr ⟨h k time hentry,
              fun hchanged => hfree p rfl k time hchanged hkeep hentry⟩

/-- Times that change by one step, which is in time exactly under a condition. -/
def Simulated (s s' : CacheTimes κ θ ω) (G : Prop) : Prop :=
  ∃ a, s' = cacheStep s a ∧ (InTime s a ↔ G)

theorem Simulated.refl (s : CacheTimes κ θ ω) : Simulated s s True :=
  ⟨.skip, rfl, Iff.rfl⟩

theorem Simulated.dated {s' : CacheTimes κ θ ω} {G : Prop} (hsim : Simulated s s' G)
    (h : Dated s) : Dated s' := by
  obtain ⟨a, ha, -⟩ := hsim
  rw [ha]
  exact h.step a

theorem Simulated.noStale_iff {s' : CacheTimes κ θ ω} {G : Prop} (hsim : Simulated s s' G)
    (h : NoStale s) : NoStale s' ↔ G := by
  obtain ⟨a, ha, hin⟩ := hsim
  rw [ha, noStale_cacheStep_iff h, hin]

end Steps

def emptyTimes : CacheTimes κ θ ω :=
  ⟨0, fun _ => 0, fun _ => none, fun _ => none, fun _ => none⟩

theorem dated_empty : Dated (emptyTimes : CacheTimes κ θ ω) where
  settled _ := Nat.le_refl _
  change _ _ h := by cases h
  lookup _ _ h := by cases h
  readAt _ _ _ h := by cases h
  entry _ _ h := by cases h

end Engramia.Library
