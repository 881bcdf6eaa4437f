import Mathlib.Order.Lattice
import Engramia.Library.OrderedDict

/-!
Dictionaries that keep with each key the time at which its entry lapses. Lapsed entries may
be dropped at any time, all at once or one when it is looked up: an entry that has not lapsed
stays.
-/
namespace Engramia.Library.OrderedDict

universe u v
variable {κ : Type u} {τ : Type v} [DecidableEq κ] [LinearOrder τ]
variable {d : OrderedDict κ τ} {P : κ → τ → Prop} {k : κ} {now t : τ}

def dropStale (now : τ) (d : OrderedDict κ τ) : OrderedDict κ τ :=
  d.discard fun k => (d.get? k).any (· < now)

def unexpired (now : τ) (d : OrderedDict κ τ) : OrderedDict κ τ :=
  d.discard fun k => !(d.get? k).any (now < ·)

/-- Whether an entry has not lapsed, and the dictionary after the look-up. -/
def lookUp (now : τ) (d : OrderedDict κ τ) (k : κ) : Bool × OrderedDict κ τ :=
  match d.get? k with
  | none => (false, d)
  | some t => if t < now then (false, d.discard (· = k)) else (true, d)

theorem get?_dropStale (h : d.get? k = some t) (ht : now ≤ t) :
    (d.dropStale now).get? k = some t := by
  have hkeep : (d.get? k).any (· < now) = false := by
    rw [h]
    exact decide_eq_false (not_lt.mpr ht)
  rw [dropStale, get?_discard, hkeep]
  exact h

theorem All.dropStale (h : d.All P) (now : τ) : (d.dropStale now).All P :=
  h.discard _

theorem lookUp_fst : (d.lookUp now k).1 = true ↔ ∃ t, d.get? k = some t ∧ now ≤ t := by
  rw [lookUp]
  cases hget : d.get? k with
  | none => simp
  | some t =>
      by_cases hlapsed : t < now
      · simp [hlapsed]
      · simp [hlapsed, not_lt.mp hlapsed]

theorem get?_lookUp (h : d.get? k = some t) (ht : now ≤ t) (k' : κ) :
    (d.lookUp now k').2.get? k = some t := by
  rw [lookUp]
  cases hget : d.get? k' with
  | none => exact h
  | some t' =>
      by_cases hlapsed : t' < now
      · have hne : k ≠ k' := by
          intro heq
          rw [heq, hget] at h
          exact absurd hlapsed (not_lt.mpr (Option.some.inj h ▸ ht))
        simp [hlapsed, get?_discard, hne, h]
      · simpa [hlapsed] using h

theorem All.lookUp (h : d.All P) (now : τ) (k : κ) : (d.lookUp now k).2.All P := by
  rw [OrderedDict.lookUp]
  cases d.get? k with
  | none => exact h
  | some t =>
      by_cases hlapsed : t < now
      · simpa [hlapsed] using h.discard _
      · simpa [hlapsed] using h

/-- The dictionary holds nothing but keys of a set, each with the time at which it lapses, and
all of them that have not lapsed. -/
structure Reflects (now : τ) (lapse : κ → Option τ) (seen : κ → Prop) (d : OrderedDict κ τ) :
    Prop where
  known : ∀ k, seen k → ∃ t, lapse k = some t
  sound : d.All fun k t => seen k ∧ lapse k = some t
  live : ∀ k t, seen k → lapse k = some t → now < t → d.get? k = some t

namespace Reflects
variable {lapse lapse' : κ → Option τ} {seen seen' : κ → Prop} {later : τ}

theorem lookUp_iff (h : Reflects now lapse seen d) (hlapse : lapse k = some t) (ht : now < t) :
    (d.lookUp now k).1 = true ↔ seen k := by
  rw [lookUp_fst]
  constructor
  · intro hblocked
    obtain ⟨t', hget, -⟩ := hblocked
    exact (h.sound.get? hget).1
  · intro hseen
    exact ⟨t, h.live k t hseen hlapse ht, le_of_lt ht⟩

theorem mono (h : Reflects now lapse seen d) (hlater : now ≤ later) :
    Reflects later lapse seen d where
  known := h.known
  sound := h.sound
  live k t hseen hlapse ht := h.live k t hseen hlapse (lt_of_le_of_lt hlater ht)

theorem congr (h : Reflects now lapse seen d) (hseen : ∀ k, seen' k ↔ seen k) :
    Reflects now lapse seen' d := by
  have heq : seen' = seen := funext fun k => propext (hseen k)
  rwa [heq]

theorem extend (h : Reflects now lapse seen d)
    (hlapse : ∀ k t, lapse k = some t → lapse' k = some t) : Reflects now lapse' seen d where
  known k hseen := by
    obtain ⟨t, ht⟩ := h.known k hseen
    exact ⟨t, hlapse k t ht⟩
  sound := h.sound.mono fun k t hkt => ⟨hkt.1, hlapse k t hkt.2⟩
  live k t hseen hkt ht := by
    obtain ⟨t', ht'⟩ := h.known k hseen
    have hsame : t' = t := Option.some.inj ((hlapse k t' ht').symm.trans hkt)
    exact h.live k t hseen (hsame ▸ ht') ht

theorem dropStale (h : Reflects now lapse seen d) {earlier : τ} (hearlier : earlier ≤ now) :
    Reflects now lapse seen (d.dropStale earlier) where
  known := h.known
  sound := h.sound.dropStale earlier
  live k t hseen hlapse ht :=
    get?_dropStale (h.live k t hseen hlapse ht) (le_trans hearlier (le_of_lt ht))

theorem lookUp (h : Reflects now lapse seen d) (k : κ) :
    Reflects now lapse seen (d.lookUp now k).2 where
  known := h.known
  sound := h.sound.lookUp now k
  live k' t hseen hlapse ht := get?_lookUp (h.live k' t hseen hlapse ht) (le_of_lt ht) k

theorem empty : Reflects now lapse (fun _ => False) (OrderedDict.empty : OrderedDict κ τ) where
  known _ hseen := hseen.elim
  sound := all_empty
  live _ _ hseen := hseen.elim

theorem unexpired (h : Reflects now lapse seen d) :
    Reflects now lapse seen (d.unexpired now) where
  known := h.known
  sound := h.sound.discard _
  live k t hseen hlapse ht := by
    have hget := h.live k t hseen hlapse ht
    have hkeep : (!(d.get? k).any (now < ·)) = false := by
      rw [hget, Option.any_some, decide_eq_true ht]
      rfl
    rw [OrderedDict.unexpired, get?_discard, hkeep]
    exact hget

/-- One key more. -/
theorem set (h : Reflects now lapse seen d) (hlapse : lapse k = some t) :
    Reflects now lapse (fun k' => seen k' ∨ k' = k) (d.set k t) where
  known k' hseen := by
    cases hseen with
    | inl hold => exact h.known k' hold
    | inr hnew => exact ⟨t, hnew ▸ hlapse⟩
  sound := by
    rw [all_set]
    refine ⟨⟨.inr rfl, hlapse⟩, ?_⟩
    exact h.sound.mono fun k' t' hkt _ => ⟨.inl hkt.1, hkt.2⟩
  live k' t' hseen hlapse' ht' := by
    rw [get?_set]
    by_cases hk : k' = k
    · rw [if_pos hk, ← hlapse, ← hlapse', hk]
    · rw [if_neg hk]
      exact h.live k' t' (hseen.resolve_right hk) hlapse' ht'

/-- A key that is there already is there with its time. -/
theorem of_isSome (h : Reflects now lapse seen d) (hk : (d.get? k).isSome = true) :
    Reflects now lapse (fun k' => seen k' ∨ k' = k) d := by
  obtain ⟨t, hget⟩ := Option.isSome_iff_exists.mp hk
  apply h.congr
  intro k'
  constructor
  · intro hseen
    cases hseen with
    | inl hold => exact hold
    | inr hnew => exact hnew ▸ (h.sound.get? hget).1
  · exact .inl

end Reflects

end Engramia.Library.OrderedDict
