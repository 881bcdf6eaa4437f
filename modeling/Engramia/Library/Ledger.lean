import Engramia.Library.Run

/-!
What the steps of a run add up to. Where each step moves a balance by what it takes in and what it
gives out, the balance at the end is the one at the start with all that came in and without all
that went out.
-/
namespace Engramia.Library

universe u v
variable {σ : Type u} {α : Type v} {step : σ → α → σ} {I : σ → Prop} {s : σ}

/-- The sum over the steps of a run. -/
def total (step : σ → α → σ) (amount : σ → α → ℕ) : σ → List α → ℕ
  | _, [] => 0
  | s, a :: as => amount s a + total step amount (step s a) as

theorem total_add (amount amount' : σ → α → ℕ) (s : σ) (as : List α) :
    total step (fun s a => amount s a + amount' s a) s as =
      total step amount s as + total step amount' s as := by
  induction as generalizing s with
  | nil => rfl
  | cons a as ih =>
      rw [total, total, total, ih]
      omega

theorem total_zero (s : σ) (as : List α) : total step (fun _ _ => 0) s as = 0 := by
  induction as generalizing s with
  | nil => rfl
  | cons a as ih => rw [total, ih]

theorem total_balance (balance : σ → ℕ) (income expense : σ → α → ℕ)
    (hinv : ∀ s a, I s → I (step s a))
    (hstep : ∀ s a, I s → balance (step s a) + expense s a = balance s + income s a) (hs : I s)
    (as : List α) :
    balance (exec step s as) + total step expense s as = balance s + total step income s as := by
  induction as generalizing s with
  | nil => rfl
  | cons a as ih =>
      have hrest := ih (hinv s a hs)
      have hfirst := hstep s a hs
      rw [exec_cons, total, total]
      omega

end Engramia.Library
