import Mathlib.Data.List.Basic

/-!
Runs of a labelled step function. A label carries everything a step reads
from outside the state (the request, the clock, which statement fails), so
an interleaving is nothing but a list of labels and quantifying over all
schedules is quantifying over all lists.

`Always` says that a predicate holds in every state a run visits, `AllSteps`
that every step of the run meets a guard in the state it is taken in.
-/
namespace Engramia.Library

universe u v w
variable {σ : Type u} {α : Type v} {γ : Type w}

/-- The state reached by taking the steps of a list of labels in order. -/
def exec (step : σ → α → σ) (s : σ) (as : List α) : σ :=
  as.foldl step s

def Always (step : σ → α → σ) (P : σ → Prop) : σ → List α → Prop
  | s, [] => P s
  | s, a :: as => P s ∧ Always step P (step s a) as

def AllSteps (step : σ → α → σ) (G : σ → α → Prop) : σ → List α → Prop
  | _, [] => True
  | s, a :: as => G s a ∧ AllSteps step G (step s a) as

@[simp] theorem exec_nil (step : σ → α → σ) (s : σ) : exec step s [] = s := rfl

@[simp] theorem exec_cons (step : σ → α → σ) (s : σ) (a : α) (as : List α) :
    exec step s (a :: as) = exec step (step s a) as := rfl

theorem exec_append (step : σ → α → σ) (s : σ) (as bs : List α) :
    exec step s (as ++ bs) = exec step (exec step s as) bs := List.foldl_append

/-- Steps one after another, any of which may end what it takes. -/
def survive (step : α → σ → Option σ) : List α → σ → Option σ
  | [], s => some s
  | a :: as, s => (step a s).bind (survive step as)

theorem survive_cons {step : α → σ → Option σ} {a : α} {as : List α} {s s' : σ}
    (h : survive step (a :: as) s = some s') :
    ∃ s₁, step a s = some s₁ ∧ survive step as s₁ = some s' :=
  Option.bind_eq_some_iff.mp h

theorem survive_concat (step : α → σ → Option σ) (a : α) (as : List α) (s : σ) :
    survive step (as ++ [a]) s = (survive step as s).bind (step a) := by
  induction as generalizing s with
  | nil => exact Option.bind_fun_some (step a s)
  | cons b as ih =>
      rw [List.cons_append, survive, survive]
      cases step b s with
      | none => rfl
      | some s₁ => exact ih s₁

section Runs
variable (step : σ → α → σ) (P Q : σ → Prop) (G : σ → α → Prop)

instance decidableAlways [DecidablePred P] : (s : σ) → (as : List α) →
    Decidable (Always step P s as)
  | s, [] => inferInstanceAs (Decidable (P s))
  | s, a :: as =>
      have := decidableAlways (step s a) as
      inferInstanceAs (Decidable (P s ∧ Always step P (step s a) as))

instance decidableAllSteps [∀ s a, Decidable (G s a)] : (s : σ) → (as : List α) →
    Decidable (AllSteps step G s as)
  | _, [] => inferInstanceAs (Decidable True)
  | s, a :: as =>
      have := decidableAllSteps (step s a) as
      inferInstanceAs (Decidable (G s a ∧ AllSteps step G (step s a) as))

variable {step P Q G}

theorem Always.head {s : σ} {as : List α} (h : Always step P s as) : P s := by
  cases as with
  | nil => exact h
  | cons a as => exact h.1

theorem always_append {s : σ} {as bs : List α} :
    Always step P s (as ++ bs) ↔ Always step P s as ∧ Always step P (exec step s as) bs := by
  induction as generalizing s with
  | nil => exact (and_iff_right_of_imp Always.head).symm
  | cons a as ih =>
      show P s ∧ Always step P (step s a) (as ++ bs) ↔ _
      rw [ih, ← and_assoc]
      rfl

theorem always_iff_prefixes {s : σ} {as : List α} :
    Always step P s as ↔ ∀ pre, pre <+: as → P (exec step s pre) := by
  induction as generalizing s with
  | nil => simp [Always]
  | cons a as ih =>
      constructor
      · rintro ⟨hs, hrest⟩ pre hpre
        cases pre with
        | nil => exact hs
        | cons b pre =>
            obtain ⟨rfl, hp⟩ := List.cons_prefix_cons.mp hpre
            exact ih.mp hrest pre hp
      · intro h
        refine ⟨h [] (List.nil_prefix), ih.mpr ?_⟩
        intro pre hpre
        exact h (a :: pre) (List.cons_prefix_cons.mpr ⟨rfl, hpre⟩)

theorem Always.last {s : σ} {as : List α} (h : Always step P s as) :
    P (exec step s as) :=
  always_iff_prefixes.mp h as (List.prefix_refl as)

theorem not_always_of_last {s : σ} {as : List α} (h : ¬ P (exec step s as)) :
    ¬ Always step P s as :=
  fun hall => h hall.last

theorem Always.mono {s : σ} {as : List α} (hPQ : ∀ s, P s → Q s)
    (h : Always step P s as) : Always step Q s as :=
  always_iff_prefixes.mpr fun pre hpre => hPQ _ (always_iff_prefixes.mp h pre hpre)

theorem AllSteps.mono {H : σ → α → Prop} {s : σ} {as : List α}
    (hGH : ∀ s a, G s a → H s a) (h : AllSteps step G s as) :
    AllSteps step H s as := by
  induction as generalizing s with
  | nil => trivial
  | cons a as ih => exact ⟨hGH s a h.1, ih h.2⟩

theorem allSteps_true (s : σ) (as : List α) :
    AllSteps step (fun _ _ => True) s as := by
  induction as generalizing s with
  | nil => trivial
  | cons a as ih => exact ⟨trivial, ih _⟩

theorem always_of_allSteps (hstep : ∀ s a, P s → G s a → P (step s a))
    {s : σ} {as : List α} (hs : P s) (hG : AllSteps step G s as) :
    Always step P s as := by
  induction as generalizing s with
  | nil => exact hs
  | cons a as ih => exact ⟨hs, ih (hstep s a hs hG.1) hG.2⟩

theorem always_of_step (hstep : ∀ s a, P s → P (step s a)) {s : σ} (hs : P s)
    (as : List α) : Always step P s as :=
  always_of_allSteps (fun s a h _ => hstep s a h) hs (allSteps_true s as)

/-- When the guard is exactly what one step needs to keep the predicate, a run
keeps the predicate throughout if and only if all its steps meet the guard. -/
theorem always_iff_allSteps (hstep : ∀ s a, P s → (P (step s a) ↔ G s a))
    {s : σ} (hs : P s) (as : List α) :
    Always step P s as ↔ AllSteps step G s as := by
  constructor
  · intro h
    induction as generalizing s with
    | nil => trivial
    | cons a as ih =>
        have hnext : P (step s a) := Always.head h.2
        exact ⟨(hstep s a hs).mp hnext, ih hnext h.2⟩
  · exact always_of_allSteps (fun s a h hg => (hstep s a h).mpr hg) hs

theorem always_iff_allSteps_of_invariant {I : σ → Prop} (hinv : ∀ s a, I s → I (step s a))
    (hstep : ∀ s a, I s → P s → (P (step s a) ↔ G s a)) {s : σ} (hI : I s) (hs : P s)
    (as : List α) : Always step P s as ↔ AllSteps step G s as := by
  induction as generalizing s with
  | nil => exact iff_of_true hs trivial
  | cons a as ih =>
      constructor
      · intro h
        have hnext : P (step s a) := Always.head h.2
        exact ⟨(hstep s a hI hs).mp hnext, (ih (hinv s a hI) hnext).mp h.2⟩
      · intro h
        have hnext : P (step s a) := (hstep s a hI hs).mpr h.1
        exact ⟨hs, (ih (hinv s a hI) hnext).mpr h.2⟩

/-- A predicate whose every step is decided by the guard only under an invariant that the
guarded steps keep. -/
theorem always_iff_allSteps_of_guarded {I : σ → Prop} (hP : ∀ s, I s → P s)
    (hkeep : ∀ s a, I s → G s a → I (step s a)) (hneed : ∀ s a, I s → P (step s a) → G s a)
    {s : σ} (hs : I s) (as : List α) : Always step P s as ↔ AllSteps step G s as := by
  constructor
  · intro h
    induction as generalizing s with
    | nil => trivial
    | cons a as ih =>
        have hguard : G s a := hneed s a hs (Always.head h.2)
        exact ⟨hguard, ih (hkeep s a hs hguard) h.2⟩
  · intro h
    exact (always_of_allSteps hkeep hs h).mono hP

/-- When a step leads to the predicate exactly from where it holds under the guard, a
run that ends in it has met the guard throughout. -/
theorem exec_iff_allSteps {I : σ → Prop} (hinv : ∀ s a, I s → I (step s a))
    (hstep : ∀ s a, I s → (P (step s a) ↔ P s ∧ G s a)) {s : σ} (hs : I s) {as : List α} :
    P (exec step s as) ↔ P s ∧ AllSteps step G s as := by
  induction as generalizing s with
  | nil => exact (and_iff_left trivial).symm
  | cons a as ih => rw [exec_cons, ih (hinv s a hs), hstep s a hs, and_assoc, AllSteps]

theorem allSteps_congr {H : σ → α → Prop} (hstep : ∀ s a, P s → P (step s a))
    (hGH : ∀ s a, P s → (G s a ↔ H s a)) {s : σ} (hs : P s) (as : List α) :
    AllSteps step G s as ↔ AllSteps step H s as := by
  induction as generalizing s with
  | nil => exact Iff.rfl
  | cons a as ih => exact and_congr (hGH s a hs) (ih (hstep s a hs))

theorem AllSteps.and_always {s : σ} {as : List α} (hG : AllSteps step G s as)
    (hP : Always step P s as) : AllSteps step (fun s a => P s ∧ G s a) s as := by
  induction as generalizing s with
  | nil => trivial
  | cons a as ih => exact ⟨⟨hP.1, hG.1⟩, ih hG.2 hP.2⟩

theorem always_and_allSteps_of_invariant {I : σ → Prop} (hinv : ∀ s a, I s → I (step s a))
    (hP : ∀ s, I s → P s) (hG : ∀ s a, I s → G s a) {s : σ} (hs : I s) (as : List α) :
    Always step P s as ∧ AllSteps step G s as := by
  have hall : Always step I s as := always_of_step hinv hs as
  have hguarded : AllSteps step (fun s a => I s ∧ True) s as :=
    (allSteps_true s as).and_always hall
  exact ⟨hall.mono hP, hguarded.mono fun s a h => hG s a h.1⟩

end Runs

section History
variable (step : σ → α → σ) (update : σ → γ → α → γ)

/-- A step function together with a history variable. The variable records
what happened and never influences the run. -/
def withHistory (sg : σ × γ) (a : α) : σ × γ :=
  (step sg.1 a, update sg.1 sg.2 a)

@[simp] theorem exec_withHistory_fst (sg : σ × γ) (as : List α) :
    (exec (withHistory step update) sg as).1 = exec step sg.1 as := by
  induction as generalizing sg with
  | nil => rfl
  | cons a as ih => exact ih _

end History

end Engramia.Library
