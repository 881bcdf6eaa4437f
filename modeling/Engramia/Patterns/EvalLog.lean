import Engramia.Library.Run
import Engramia.Patterns.EvalHistory
import Mathlib.Data.List.DropRight

/-!
The log of the evaluations of a scope. All keys share it and it keeps the last saves, so the
multiplier of a key is a function of the records among them that are its own, and a save for
another key can only push the oldest of these out.
-/
namespace Engramia.Patterns
open Engramia.Library Engramia.Storage
open Engramia.Core (maxEvals)

/-- The lists under the keys of the scopes. -/
abbrev EvalLogs (σ : Type) : Type := σ → List EvalRecord

section Saves
variable {σ : Type} [DecidableEq σ]

/-- `EvalStore.save` of a record in a scope. -/
def EvalLogs.save (logs : EvalLogs σ) (x : σ × EvalRecord) : EvalLogs σ :=
  Function.update logs x.1 (storeEval (logs x.1) x.2)

def EvalLogs.empty : EvalLogs σ := fun _ => []

/-- The logs after a sequence of saves. -/
def evalLogs (saves : List (σ × EvalRecord)) : EvalLogs σ :=
  exec EvalLogs.save EvalLogs.empty saves

/-- What has been saved in a scope. -/
def savesOf (s : σ) (saves : List (σ × EvalRecord)) : List EvalRecord :=
  (saves.filter (·.1 = s)).map Prod.snd

/-- The last saves of a scope, as many as its log may hold. -/
def lastSaves (s : σ) (saves : List (σ × EvalRecord)) : List EvalRecord :=
  (savesOf s saves).rtake maxEvals

def recordsOf (key : Text) (evals : List EvalRecord) : List EvalRecord :=
  evals.filter (·.agentName = key)

/-- The scores of the last five records of a key, the latest first. -/
def recentScores (key : Text) (evals : List EvalRecord) : List ℚ :=
  ((recordsOf key evals).reverse.take 5).map EvalRecord.overall

theorem storeEval_eq (evals : List EvalRecord) (e : EvalRecord) :
    storeEval evals e = (evals ++ [e]).rtake maxEvals := rfl

theorem rtake_concat {α : Type} (n : ℕ) (xs : List α) (x : α) :
    (xs.rtake n ++ [x]).rtake n = (xs ++ [x]).rtake n := by
  simp only [List.rtake, List.length_append, List.length_drop, List.length_singleton]
  rw [List.drop_append, List.drop_append, List.drop_drop, List.length_drop]
  congr 2
  · omega
  · omega

theorem savesOf_concat (s : σ) (saves : List (σ × EvalRecord)) (x : σ × EvalRecord) :
    savesOf s (saves ++ [x]) = savesOf s saves ++ if x.1 = s then [x.2] else [] := by
  by_cases hx : x.1 = s
  · simp [savesOf, hx]
  · simp [savesOf, hx]

theorem evalLogs_eq (saves : List (σ × EvalRecord)) (s : σ) :
    evalLogs saves s = lastSaves s saves := by
  induction saves using List.reverseRecOn with
  | nil => simp [evalLogs, EvalLogs.empty, lastSaves, savesOf, List.rtake]
  | append_singleton saves x ih =>
      have hstep : evalLogs (saves ++ [x]) = (evalLogs saves).save x := exec_append _ _ _ _
      rw [hstep, lastSaves, savesOf_concat, EvalLogs.save]
      by_cases hx : x.1 = s
      · subst hx
        rw [Function.update_self, if_pos rfl, ih, storeEval_eq]
        exact rtake_concat maxEvals (savesOf x.1 saves) x.2
      · rw [Function.update_of_ne (Ne.symm hx), if_neg hx, List.append_nil, ih, lastSaves]

end Saves

section Multipliers
variable {T : TextMethods} {key task : Text} {evals evals' : List EvalRecord}

theorem relevant_eq (T : TextMethods) (key task : Text) (evals : List EvalRecord) :
    relevant T key task 0 evals = (recordsOf key evals).reverse := by
  simp [relevant, recordsOf]

theorem evalMultiplier_eq (T : TextMethods) (key task : Text) (evals : List EvalRecord) :
    evalMultiplier T key task evals =
      if recentScores key evals = [] then 3 / 4
      else 1 / 2 + 1 / 20 * median (recentScores key evals) := by
  have hscores : ((relevant T key task 0 evals).map EvalRecord.overall).take
      (max 1 aggregationWindow) = recentScores key evals := by
    rw [relevant_eq, recentScores, List.map_take]
    rfl
  rw [evalMultiplier, agentScore]
  simp only [hscores]
  by_cases hnil : recentScores key evals = []
  · simp only [if_pos hnil]
  · simp only [if_neg hnil]
    linarith

theorem evalMultiplier_congr {task' : Text} (h : recordsOf key evals = recordsOf key evals') :
    evalMultiplier T key task evals = evalMultiplier T key task' evals' := by
  rw [evalMultiplier_eq, evalMultiplier_eq, recentScores, recentScores, h]

end Multipliers

section Law
variable {σ : Type} [DecidableEq σ]

theorem savesOf_append (s : σ) (saves later : List (σ × EvalRecord)) :
    savesOf s (saves ++ later) = savesOf s saves ++ savesOf s later := by
  rw [savesOf, List.filter_append, List.map_append, savesOf, savesOf]

theorem drop_append_suffix {α : Type} (n : ℕ) (xs ys : List α) :
    ∃ zs, (xs ++ ys).rtake n = zs ++ ys.drop (xs.length + ys.length - n - xs.length) ∧
      zs <:+ xs.rtake n := by
  refine ⟨xs.drop (xs.length + ys.length - n), ?_, ?_⟩
  · rw [List.rtake, List.length_append, List.drop_append]
  · rw [List.rtake]
    have hle : xs.length - n ≤ xs.length + ys.length - n := by omega
    obtain ⟨k, hk⟩ := Nat.exists_eq_add_of_le hle
    rw [hk, ← List.drop_drop]
    exact List.drop_suffix _ _

theorem recordsOf_suffix (s : σ) (key : Text) (saves later : List (σ × EvalRecord))
    (h : ∀ x ∈ later, x.1 = s → x.2.agentName ≠ key) :
    recordsOf key (lastSaves s (saves ++ later)) <:+ recordsOf key (lastSaves s saves) := by
  obtain ⟨kept, hkept, hsuffix⟩ := drop_append_suffix maxEvals (savesOf s saves) (savesOf s later)
  have hnone : ∀ n, recordsOf key ((savesOf s later).drop n) = [] := by
    intro n
    rw [recordsOf, List.filter_eq_nil_iff]
    intro e he
    obtain ⟨x, hx, rfl⟩ := List.mem_map.mp (List.mem_of_mem_drop he)
    obtain ⟨hmem, hscope⟩ := List.mem_filter.mp hx
    simpa using h x hmem (of_decide_eq_true hscope)
  rw [lastSaves, savesOf_append, hkept, recordsOf, List.filter_append, ← recordsOf, ← recordsOf,
    hnone, List.append_nil]
  exact hsuffix.filter _

/-- What the multipliers of a key are after some saves in a scope. -/
structure MultiplierLaw (T : TextMethods) (s : σ) (key : Text)
    (saves : List (σ × EvalRecord)) : Prop where
  value : ∀ task, evalMultiplier T key task (evalLogs saves s) =
    if recentScores key (lastSaves s saves) = [] then 3 / 4
    else 1 / 2 + 1 / 20 * median (recentScores key (lastSaves s saves))
  bounds : ∀ task, 1 / 2 ≤ evalMultiplier T key task (evalLogs saves s) ∧
    evalMultiplier T key task (evalLogs saves s) ≤ 1
  anyTask : ∀ task task', evalMultiplier T key task (evalLogs saves s) =
    evalMultiplier T key task' (evalLogs saves s)
  others : ∀ later, (∀ x ∈ later, x.1 = s → x.2.agentName ≠ key) →
    recordsOf key (lastSaves s (saves ++ later)) <:+ recordsOf key (lastSaves s saves) ∧
      (recordsOf key (lastSaves s (saves ++ later)) = recordsOf key (lastSaves s saves) →
        ∀ task, evalMultiplier T key task (evalLogs (saves ++ later) s) =
          evalMultiplier T key task (evalLogs saves s))

/-- After any saves the multiplier of a key is the one of its last scores among the last
saves. -/
theorem multiplier_law (T : TextMethods) (s : σ) (key : Text) (saves : List (σ × EvalRecord))
    (h : ∀ x ∈ saves, 0 ≤ x.2.overall ∧ x.2.overall ≤ 10) : MultiplierLaw T s key saves where
  value task := by rw [evalLogs_eq, evalMultiplier_eq]
  bounds task := by
    apply evalMultiplier_bounds
    intro e he
    rw [evalLogs_eq] at he
    obtain ⟨x, hx, rfl⟩ := List.mem_map.mp (List.mem_of_mem_drop he)
    exact h x (List.mem_filter.mp hx).1
  anyTask task task' := evalMultiplier_congr rfl
  others later hlater := by
    refine ⟨recordsOf_suffix s key saves later hlater, ?_⟩
    intro hsame task
    rw [evalLogs_eq, evalLogs_eq]
    exact evalMultiplier_congr hsame

/-- A save for another key between two saves for a key. -/
def threeSaves : List (Unit × EvalRecord) :=
  [((), ⟨['a'], ['t'], ⟨4, []⟩, 0⟩), ((), ⟨['b'], ['t'], ⟨10, []⟩, 1⟩),
    ((), ⟨['a'], ['t'], ⟨8, []⟩, 2⟩)]

theorem multiplier_law_three : MultiplierLaw ⟨id, Char.isWhitespace⟩ () ['a'] threeSaves := by
  apply multiplier_law
  intro x hx
  simp only [threeSaves, List.mem_cons, List.not_mem_nil, or_false] at hx
  obtain rfl | rfl | rfl := hx
  · norm_num [EvalRecord.overall]
  · norm_num [EvalRecord.overall]
  · norm_num [EvalRecord.overall]

end Law

end Engramia.Patterns
