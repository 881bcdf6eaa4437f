import Mathlib.Data.List.Basic

/-!
Noninterference for stateful computations that may raise. A view is what one
party can see of the state. A computation is confined to a view when its
answer, and what it leaves in view, depend on nothing else; it is unseen when
it leaves the view as it was.

Both notions are closed under sequencing, so an operation is confined when the
calls it is made of are. Operations of one party that are confined to its view,
among operations of others that this view does not see, answer as if the others
had never run.
-/
namespace Engramia.Library

variable {ε σ τ α β ω : Type}

def outcome : EStateM.Result ε σ α → Except ε α
  | .ok a _ => .ok a
  | .error e _ => .error e

def final : EStateM.Result ε σ α → σ
  | .ok _ s => s
  | .error _ s => s

/-- Answer and remaining view are functions of the view. -/
def Confined (view : σ → τ) (m : EStateM ε σ α) : Prop :=
  ∀ s s', view s = view s' →
    outcome (m s) = outcome (m s') ∧ view (final (m s)) = view (final (m s'))

def Unseen (view : σ → τ) (m : EStateM ε σ α) : Prop :=
  ∀ s, view (final (m s)) = view s

section Closure
variable {view : σ → τ} {m : EStateM ε σ α} {f : α → EStateM ε σ β}

theorem Confined.pure (a : α) : Confined view (pure a : EStateM ε σ α) :=
  fun _ _ h => ⟨rfl, h⟩

theorem Confined.throw_bind (e : ε) : Confined view ((throw e : EStateM ε σ α) >>= f) :=
  fun _ _ h => ⟨rfl, h⟩

theorem Unseen.throw_bind (e : ε) : Unseen view ((throw e : EStateM ε σ α) >>= f) :=
  fun _ => rfl

theorem Unseen.pure (a : α) : Unseen view (pure a : EStateM ε σ α) :=
  fun _ => rfl

theorem bind_ok {s s' : σ} {a : α} (h : m s = .ok a s') : (m >>= f) s = f a s' := by
  show EStateM.bind m f s = f a s'
  rw [EStateM.bind, h]

theorem bind_error {s s' : σ} {e : ε} (h : m s = .error e s') :
    (m >>= f) s = .error e s' := by
  show EStateM.bind m f s = .error e s'
  rw [EStateM.bind, h]

/-- What a sequence returns its last part returned. -/
theorem exists_of_bind_ok {s s'' : σ} {b : β} (h : (m >>= f) s = .ok b s'') :
    ∃ a s', m s = .ok a s' ∧ f a s' = .ok b s'' := by
  cases hm : m s with
  | ok a s' =>
      rw [bind_ok hm] at h
      exact ⟨a, s', rfl, h⟩
  | error e s' =>
      rw [bind_error hm] at h
      cases h

theorem Confined.bind (hm : Confined view m) (hf : ∀ a, Confined view (f a)) :
    Confined view (m >>= f) := by
  intro s s' hs
  have h := hm s s' hs
  cases hr : m s with
  | ok a t =>
      cases hr' : m s' with
      | ok a' t' =>
          rw [hr, hr'] at h
          rw [bind_ok hr, bind_ok hr', Except.ok.inj h.1]
          exact hf a' t t' h.2
      | error e' t' =>
          rw [hr, hr'] at h
          cases h.1
  | error e t =>
      cases hr' : m s' with
      | ok a' t' =>
          rw [hr, hr'] at h
          cases h.1
      | error e' t' =>
          rw [hr, hr'] at h
          rw [bind_error hr, bind_error hr', Except.error.inj h.1]
          exact ⟨rfl, h.2⟩

theorem Unseen.bind (hm : Unseen view m) (hf : ∀ a, Unseen view (f a)) :
    Unseen view (m >>= f) := by
  intro s
  have h := hm s
  cases hr : m s with
  | ok a t =>
      rw [hr] at h
      rw [bind_ok hr, hf a t]
      exact h
  | error e t =>
      rw [hr] at h
      rw [bind_error hr]
      exact h

theorem Confined.ite {c : Prop} [Decidable c] {m' : EStateM ε σ α}
    (hm : Confined view m) (hm' : Confined view m') : Confined view (if c then m else m') := by
  by_cases hc : c
  · rwa [if_pos hc]
  · rwa [if_neg hc]

theorem Unseen.ite {c : Prop} [Decidable c] {m' : EStateM ε σ α}
    (hm : Unseen view m) (hm' : Unseen view m') : Unseen view (if c then m else m') := by
  by_cases hc : c
  · rwa [if_pos hc]
  · rwa [if_neg hc]

end Closure

/-- An invariant that a computation keeps, also where it raises. -/
def Maintains (I : σ → Prop) (m : EStateM ε σ α) : Prop :=
  ∀ s, I s → I (final (m s))

section Invariants
variable {I : σ → Prop} {m : EStateM ε σ α} {f : α → EStateM ε σ β}

theorem Maintains.pure (a : α) : Maintains I (pure a : EStateM ε σ α) :=
  fun _ h => h

theorem Maintains.throw_bind (e : ε) : Maintains I ((throw e : EStateM ε σ α) >>= f) :=
  fun _ h => h

theorem Maintains.bind (hm : Maintains I m) (hf : ∀ a, Maintains I (f a)) :
    Maintains I (m >>= f) := by
  intro s hs
  have h := hm s hs
  cases hr : m s with
  | ok a t =>
      rw [hr] at h
      rw [bind_ok hr]
      exact hf a t h
  | error e t =>
      rw [hr] at h
      rw [bind_error hr]
      exact h

theorem Maintains.ite {c : Prop} [Decidable c] {m' : EStateM ε σ α}
    (hm : Maintains I m) (hm' : Maintains I m') : Maintains I (if c then m else m') := by
  by_cases hc : c
  · rwa [if_pos hc]
  · rwa [if_neg hc]

end Invariants

section Runs
variable (perform : ω → EStateM ε σ α) (mine : ω → Bool)

/-- What one party is answered in the course of a run of everybody's operations. -/
def responses : σ → List ω → List (Except ε α)
  | _, [] => []
  | s, o :: os =>
      if mine o then outcome (perform o s) :: responses (final (perform o s)) os
      else responses (final (perform o s)) os

variable {perform mine}

/-- The other operations of a run may be left out without the party noticing. -/
theorem responses_filter {view : σ → τ} {s s' : σ} {os : List ω}
    (hconf : ∀ o ∈ os, mine o = true → Confined view (perform o))
    (hunseen : ∀ o ∈ os, mine o = false → Unseen view (perform o))
    (hs : view s = view s') :
    responses perform mine s os = responses perform mine s' (os.filter mine) := by
  induction os generalizing s s' with
  | nil => rfl
  | cons o os ih =>
      have ih' : ∀ {t t' : σ}, view t = view t' →
          responses perform mine t os = responses perform mine t' (os.filter mine) :=
        ih (fun o' ho' => hconf o' (List.mem_cons_of_mem o ho'))
          fun o' ho' => hunseen o' (List.mem_cons_of_mem o ho')
      cases hmine : mine o with
      | true =>
          have h := hconf o List.mem_cons_self hmine s s' hs
          rw [List.filter_cons_of_pos hmine, responses, responses, if_pos hmine, if_pos hmine,
            h.1, ih' h.2]
      | false =>
          have h := hunseen o List.mem_cons_self hmine s
          have hne : ¬ mine o = true := by rw [hmine]; exact Bool.false_ne_true
          rw [List.filter_cons_of_neg hne, responses, if_neg hne]
          exact ih' (h.trans hs)

end Runs

end Engramia.Library
