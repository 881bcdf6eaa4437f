import Engramia.Patterns.Learning

/-!
Reading the evaluation history: the score of an agent over its last records, and the
multiplier that recall weighs a pattern with. Scores are rationals between 0 and 10 and
multipliers lie between one half and one, with three quarters for a pattern without records.
-/
namespace Engramia.Patterns
open Engramia.Library Engramia.Storage

/-- `statistics.median` of scores. -/
def median (scores : List ℚ) : ℚ :=
  let sorted := scores.insertionSort (· ≤ ·)
  let half := sorted.length / 2
  if sorted.length % 2 = 1 then sorted.getD half 0
  else (sorted.getD (half - 1) 0 + sorted.getD half 0) / 2

inductive Aggregation where
  | latest
  | median
  | mean
deriving DecidableEq

def aggregationWindow : Nat := 5

section Scores
variable (T : TextMethods)

/-- The records of an agent, the latest first, on a task that is similar enough. -/
def relevant (agentName task : Text) (minJaccard : ℚ) (evals : List EvalRecord) :
    List EvalRecord :=
  evals.reverse.filter fun e =>
    e.agentName = agentName && !(0 < minJaccard && jaccard T e.task task < minJaccard)

/-- `EvalStore.get_agent_score` -/
def agentScore (agentName task : Text) (minJaccard : ℚ) (aggregation : Aggregation)
    (window : Nat) (evals : List EvalRecord) : Option ℚ :=
  let scores := (relevant T agentName task minJaccard evals).map EvalRecord.overall
  let collected := scores.take (max 1 window)
  match aggregation with
  | .latest => scores.head?
  | .median => if collected = [] then none else some (median collected)
  | .mean => if collected = [] then none else some (collected.sum / collected.length)

/-- `EvalStore.get_eval_multiplier`, as recall calls it. -/
def evalMultiplier (agentName task : Text) (evals : List EvalRecord) : ℚ :=
  match agentScore T agentName task 0 .median aggregationWindow evals with
  | none => 3 / 4
  | some score => 1 / 2 + 1 / 2 * (score / 10)

end Scores

section Bounds
variable {T : TextMethods} {agentName task : Text} {evals : List EvalRecord} {lo hi : ℚ}

theorem median_bounds {scores : List ℚ} (hne : scores ≠ [])
    (h : ∀ x ∈ scores, lo ≤ x ∧ x ≤ hi) : lo ≤ median scores ∧ median scores ≤ hi := by
  have hlen : (scores.insertionSort (· ≤ ·)).length = scores.length := List.length_insertionSort _ _
  have hpos := List.length_pos_iff.mpr hne
  have hget : ∀ i, i < scores.length →
      lo ≤ (scores.insertionSort (· ≤ ·)).getD i 0 ∧
        (scores.insertionSort (· ≤ ·)).getD i 0 ≤ hi := by
    intro i hi'
    have hlt : i < (scores.insertionSort (· ≤ ·)).length := by omega
    rw [List.getD_eq_getElem?_getD, List.getElem?_eq_getElem hlt, Option.getD_some]
    exact h _ ((List.mem_insertionSort _).mp (List.getElem_mem _))
  rw [median, hlen]
  have hhalf := hget (scores.length / 2) (by omega)
  have hbefore := hget (scores.length / 2 - 1) (by omega)
  by_cases hodd : scores.length % 2 = 1
  · simp only [if_pos hodd]
    exact hhalf
  · simp only [if_neg hodd]
    constructor
    · linarith [hhalf.1, hbefore.1]
    · linarith [hhalf.2, hbefore.2]

theorem mem_relevant {e : EvalRecord} (h : e ∈ relevant T agentName task 0 evals) :
    e ∈ evals ∧ e.agentName = agentName := by
  obtain ⟨hmem, hname⟩ := List.mem_filter.mp h
  simp only [Bool.and_eq_true, decide_eq_true_eq] at hname
  exact ⟨List.mem_reverse.mp hmem, hname.1⟩

theorem evalMultiplier_neutral (h : ∀ e ∈ evals, e.agentName ≠ agentName) :
    evalMultiplier T agentName task evals = 3 / 4 := by
  have hnone : relevant T agentName task 0 evals = [] := by
    rw [List.eq_nil_iff_forall_not_mem]
    intro e he
    exact h e (mem_relevant he).1 (mem_relevant he).2
  rw [evalMultiplier, agentScore, hnone]
  rfl

theorem evalMultiplier_bounds (h : ∀ e ∈ evals, 0 ≤ e.overall ∧ e.overall ≤ 10) :
    1 / 2 ≤ evalMultiplier T agentName task evals ∧
      evalMultiplier T agentName task evals ≤ 1 := by
  rw [evalMultiplier, agentScore]
  by_cases hnone : ((relevant T agentName task 0 evals).map EvalRecord.overall).take
      (max 1 aggregationWindow) = []
  · simp only [if_pos hnone]
    norm_num
  · simp only [if_neg hnone]
    have hcollected : ∀ x ∈ ((relevant T agentName task 0 evals).map EvalRecord.overall).take
        (max 1 aggregationWindow), 0 ≤ x ∧ x ≤ 10 := by
      intro x hx
      obtain ⟨e, he, rfl⟩ := List.mem_map.mp (List.mem_of_mem_take hx)
      exact h e (mem_relevant he).1
    have hscores := median_bounds hnone hcollected
    constructor
    · linarith [hscores.1]
    · linarith [hscores.2]

end Bounds

end Engramia.Patterns
