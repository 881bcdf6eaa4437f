import Mathlib.Logic.Function.Basic

/-!
Families of points under a relation of nearness. A family is separated when no
two of its points are near, and covers a point when one of its own is near it. A
separated family that covers everything met so far is a net of it.

Nearness need not be transitive, so moving one point of a net may break both
halves. The two laws below say exactly when.
-/
namespace Engramia.Library

universe u v
variable {κ : Type u} {α : Type v} (near : α → α → Prop) (f : κ → Option α)

def Separated : Prop :=
  ∀ k k' a b, k ≠ k' → f k = some a → f k' = some b → ¬ near a b

def Covers (x : α) : Prop :=
  ∃ k a, f k = some a ∧ near a x

variable {near f} [DecidableEq κ] {k : κ} {a : α}

omit [DecidableEq κ] in
theorem separated_none : Separated near fun _ : κ => none := by
  intro k k' a b _ ha
  cases ha

/-- A separated family stays so exactly when the point put in is far from the others. -/
theorem separated_update (hsymm : ∀ a b, near a b → near b a) (h : Separated near f) :
    Separated near (Function.update f k (some a)) ↔
      ∀ k' b, k' ≠ k → f k' = some b → ¬ near b a := by
  constructor
  · intro hsep k' b hk' hb
    apply hsep k' k b a hk'
    · rw [Function.update_of_ne hk', hb]
    · rw [Function.update_self]
  · intro hfar k₁ k₂ b₁ b₂ hne h₁ h₂
    by_cases hk₁ : k₁ = k
    · rw [hk₁] at h₁ hne
      rw [Function.update_self] at h₁
      rw [Function.update_of_ne hne.symm] at h₂
      rw [← Option.some.inj h₁]
      exact fun hnear => hfar k₂ b₂ hne.symm h₂ (hsymm _ _ hnear)
    · rw [Function.update_of_ne hk₁] at h₁
      by_cases hk₂ : k₂ = k
      · rw [hk₂, Function.update_self] at h₂
        rw [← Option.some.inj h₂]
        exact hfar k₁ b₁ hk₁ h₁
      · rw [Function.update_of_ne hk₂] at h₂
        exact h k₁ k₂ b₁ b₂ hne h₁ h₂

/-- The point put in covers what it is near, the others what they covered. -/
theorem covers_update {x : α} :
    Covers near (Function.update f k (some a)) x ↔
      near a x ∨ ∃ k' b, k' ≠ k ∧ f k' = some b ∧ near b x := by
  constructor
  · intro h
    obtain ⟨k', b, hb, hnear⟩ := h
    by_cases hk' : k' = k
    · rw [hk', Function.update_self] at hb
      rw [Option.some.inj hb]
      exact .inl hnear
    · rw [Function.update_of_ne hk'] at hb
      exact .inr ⟨k', b, hk', hb, hnear⟩
  · intro h
    cases h with
    | inl hnear => exact ⟨k, a, Function.update_self .., hnear⟩
    | inr h =>
        obtain ⟨k', b, hk', hb, hnear⟩ := h
        exact ⟨k', b, by rw [Function.update_of_ne hk', hb], hnear⟩

end Engramia.Library
