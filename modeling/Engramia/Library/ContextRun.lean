import Mathlib.Data.List.Sublists
import Mathlib.Logic.Function.Basic
import Engramia.Library.Run

/-!
Tasks that each run inside a context object. A context is entered by one task at a time: a
task that starts while its context is entered is refused, and its body never runs. The body
takes outcomes one after another until it has a result, and leaves the context with it.

No task is refused exactly when every task starts while no other one is inside its context.
With a context for each task, or one task, that is always so.
-/
namespace Engramia.Library

universe u v w x y
variable {ι : Type u} {κ : Type v} {σ : Type w} {ε : Type x} {ρ : Type y}

structure Body (σ : Type w) (ε : Type x) (ρ : Type y) where
  start : σ
  advance : σ → ε → σ ⊕ ρ

inductive Task (σ : Type w) (ρ : Type y) where
  | waiting
  | inside (progress : σ)
  | refused
  | finished (result : ρ)

def Task.Ended : Task σ ρ → Prop
  | .waiting | .inside _ => False
  | .refused | .finished _ => True

structure Pool (ι : Type u) (κ : Type v) (σ : Type w) (ρ : Type y) where
  tasks : ι → Task σ ρ
  entered : κ → Bool

inductive Turn (ι : Type u) (ε : Type x) where
  | enter (i : ι)
  | outcome (i : ι) (e : ε)

/-- The start of a pool: nothing has run yet. -/
def Pool.submitted : Pool ι κ σ ρ := ⟨fun _ => .waiting, fun _ => false⟩

def Pool.Inside (s : Pool ι κ σ ρ) (i : ι) : Prop := ∃ b, s.tasks i = .inside b

def Pool.NoneRefused (s : Pool ι κ σ ρ) : Prop := ∀ i, s.tasks i ≠ .refused

section Turns
variable [DecidableEq ι] [DecidableEq κ] (contextOf : ι → κ) (body : Body σ ε ρ)

def Pool.turn (s : Pool ι κ σ ρ) : Turn ι ε → Pool ι κ σ ρ
  | .enter i =>
      match s.tasks i with
      | .waiting =>
          if s.entered (contextOf i) then
            { s with tasks := Function.update s.tasks i .refused }
          else
            { tasks := Function.update s.tasks i (.inside body.start)
              entered := Function.update s.entered (contextOf i) true }
      | _ => s
  | .outcome i e =>
      match s.tasks i with
      | .inside b =>
          match body.advance b e with
          | .inl b => { s with tasks := Function.update s.tasks i (.inside b) }
          | .inr r =>
              { tasks := Function.update s.tasks i (.finished r)
                entered := Function.update s.entered (contextOf i) false }
      | _ => s

/-- A task starts only while no other one is inside its context. -/
def Alone (s : Pool ι κ σ ρ) : Turn ι ε → Prop
  | .enter i => s.tasks i = .waiting → ∀ j, s.Inside j → contextOf j ≠ contextOf i
  | .outcome _ _ => True

/-- A context is entered exactly while a task is inside it, and by one task only. -/
structure Entered (s : Pool ι κ σ ρ) : Prop where
  exact : ∀ c, s.entered c = true ↔ ∃ i, s.Inside i ∧ contextOf i = c
  single : ∀ i j, s.Inside i → s.Inside j → contextOf i = contextOf j → i = j

/-- What a turn of a pool does, case by case. -/
inductive Moved (s : Pool ι κ σ ρ) : Turn ι ε → Pool ι κ σ ρ → Prop
  | notWaiting (i : ι) (hw : s.tasks i ≠ .waiting) : Moved s (.enter i) s
  | notInside (i : ι) (e : ε) (hb : ¬ s.Inside i) : Moved s (.outcome i e) s
  | refused (i : ι) (hw : s.tasks i = .waiting) (h : s.entered (contextOf i) = true) :
      Moved s (.enter i) { s with tasks := Function.update s.tasks i .refused }
  | entered (i : ι) (hw : s.tasks i = .waiting) (h : s.entered (contextOf i) = false) :
      Moved s (.enter i)
        { tasks := Function.update s.tasks i (.inside body.start)
          entered := Function.update s.entered (contextOf i) true }
  | goesOn (i : ι) (e : ε) (b b' : σ) (hb : s.tasks i = .inside b)
      (h : body.advance b e = .inl b') :
      Moved s (.outcome i e) { s with tasks := Function.update s.tasks i (.inside b') }
  | ended (i : ι) (e : ε) (b : σ) (r : ρ) (hb : s.tasks i = .inside b)
      (h : body.advance b e = .inr r) :
      Moved s (.outcome i e)
        { tasks := Function.update s.tasks i (.finished r)
          entered := Function.update s.entered (contextOf i) false }

end Turns

section States
variable {contextOf : ι → κ} {s : Pool ι κ σ ρ} {i j : ι}

theorem submitted_entered : Entered contextOf (Pool.submitted : Pool ι κ σ ρ) := by
  constructor
  · simp [Pool.submitted, Pool.Inside]
  · intro i j hi
    obtain ⟨b, hb⟩ := hi
    cases hb

theorem Entered.free_iff (h : Entered contextOf s) :
    s.entered (contextOf i) = false ↔ ∀ j, s.Inside j → contextOf j ≠ contextOf i := by
  rw [← Bool.not_eq_true, h.exact]
  simp

/-- What is entered depends on who is inside only. -/
theorem Entered.congr {s' : Pool ι κ σ ρ} (h : Entered contextOf s)
    (hentered : s'.entered = s.entered) (hinside : ∀ j, s'.Inside j ↔ s.Inside j) :
    Entered contextOf s' := by
  constructor
  · intro c
    rw [hentered, h.exact]
    exact exists_congr fun j => and_congr_left fun _ => (hinside j).symm
  · intro j k hj hk
    exact h.single j k ((hinside j).mp hj) ((hinside k).mp hk)

variable [DecidableEq ι]

theorem inside_update_inside {b : σ} {entered : κ → Bool} :
    Pool.Inside ⟨Function.update s.tasks i (.inside b), entered⟩ j ↔ j = i ∨ s.Inside j := by
  by_cases hj : j = i
  · subst hj
    simp [Pool.Inside]
  · simp [Pool.Inside, hj]

theorem inside_update_other {entered : κ → Bool} {task : Task σ ρ} (h : ∀ b, task ≠ .inside b) :
    Pool.Inside ⟨Function.update s.tasks i task, entered⟩ j ↔ j ≠ i ∧ s.Inside j := by
  by_cases hj : j = i
  · subst hj
    simp [Pool.Inside, h]
  · simp [Pool.Inside, hj]

end States

section Steps
variable [DecidableEq ι] [DecidableEq κ] {contextOf : ι → κ} {body : Body σ ε ρ}
  {s s' : Pool ι κ σ ρ} {t : Turn ι ε}

theorem moved_turn : Moved contextOf body s t (s.turn contextOf body t) := by
  cases t with
  | enter i =>
      rw [Pool.turn]
      cases hw : s.tasks i with
      | waiting =>
          cases h : s.entered (contextOf i) with
          | true => exact .refused i hw h
          | false => exact .entered i hw h
      | inside b | refused | finished r => exact .notWaiting i (by simp [hw])
  | outcome i e =>
      rw [Pool.turn]
      cases hb : s.tasks i with
      | inside b =>
          dsimp only
          cases h : body.advance b e with
          | inl b' => exact .goesOn i e b b' hb h
          | inr r => exact .ended i e b r hb h
      | waiting | refused | finished r => exact .notInside i e (by simp [Pool.Inside, hb])

theorem Entered.moved (h : Entered contextOf s) (hmove : Moved contextOf body s t s') :
    Entered contextOf s' := by
  cases hmove with
  | notWaiting | notInside => exact h
  | refused i hw henter =>
      refine h.congr rfl ?_
      intro j
      rw [inside_update_other fun b hb => by cases hb]
      refine and_iff_right_of_imp ?_
      intro hj heq
      obtain ⟨b, hb⟩ := heq ▸ hj
      rw [hw] at hb
      cases hb
  | entered i hw henter =>
      have hfree := h.free_iff.mp henter
      constructor
      · intro c
        simp only [inside_update_inside]
        by_cases hc : c = contextOf i
        · subst hc
          simp
        · rw [Function.update_of_ne hc, h.exact]
          refine exists_congr fun j => and_congr_left fun hj => ?_
          refine (or_iff_right ?_).symm
          intro heq
          exact hc (heq ▸ hj.symm)
      · intro j k hj hk heq
        rw [inside_update_inside] at hj hk
        cases hj with
        | inl hji =>
            cases hk with
            | inl hki => exact hji.trans hki.symm
            | inr hk => exact (hfree k hk (heq.symm.trans (congrArg contextOf hji))).elim
        | inr hj =>
            cases hk with
            | inl hki => exact (hfree j hj (heq.trans (congrArg contextOf hki))).elim
            | inr hk => exact h.single j k hj hk heq
  | goesOn i e b b' hb hgo =>
      refine h.congr rfl ?_
      intro j
      rw [inside_update_inside]
      refine or_iff_right_of_imp ?_
      intro hj
      exact ⟨b, hj ▸ hb⟩
  | ended i e b r hb hend =>
      have hinside : ∀ j, Pool.Inside ⟨Function.update s.tasks i (.finished r),
          Function.update s.entered (contextOf i) false⟩ j ↔ j ≠ i ∧ s.Inside j :=
        fun j => inside_update_other fun b hb => by cases hb
      constructor
      · intro c
        simp only [hinside]
        by_cases hc : c = contextOf i
        · subst hc
          rw [Function.update_self]
          refine iff_of_false Bool.false_ne_true ?_
          intro hother
          obtain ⟨j, hj, heq⟩ := hother
          exact hj.1 (h.single j i hj.2 ⟨b, hb⟩ heq)
        · rw [Function.update_of_ne hc, h.exact]
          refine exists_congr fun j => and_congr_left fun hj => ?_
          refine (and_iff_right ?_).symm
          intro heq
          exact hc (heq ▸ hj.symm)
      · intro j k hj hk
        exact h.single j k ((hinside j).mp hj).2 ((hinside k).mp hk).2

theorem Entered.turn (h : Entered contextOf s) (t : Turn ι ε) :
    Entered contextOf (s.turn contextOf body t) :=
  h.moved moved_turn

/-- A turn refuses a task exactly when the task does not start alone. -/
theorem noneRefused_moved (h : Entered contextOf s) (hnone : s.NoneRefused)
    (hmove : Moved contextOf body s t s') : s'.NoneRefused ↔ Alone contextOf s t := by
  have hupdate : ∀ {i : ι} {task : Task σ ρ} {entered : κ → Bool}, task ≠ .refused →
      Pool.NoneRefused ⟨Function.update s.tasks i task, entered⟩ := by
    intro i task entered htask j
    by_cases hj : j = i
    · subst hj
      simpa using htask
    · simpa [hj] using hnone j
  cases hmove with
  | notWaiting i hw => exact iff_of_true hnone fun hwait => (hw hwait).elim
  | notInside i e hb => exact iff_of_true hnone trivial
  | refused i hw henter =>
      refine iff_of_false ?_ ?_
      · intro hnone'
        exact hnone' i (Function.update_self i _ _)
      · intro halone
        have hfree := h.free_iff.mpr (halone hw)
        rw [henter] at hfree
        cases hfree
  | entered i hw henter =>
      exact iff_of_true (hupdate fun h => by cases h) fun _ => h.free_iff.mp henter
  | goesOn i e b b' hb hgo => exact iff_of_true (hupdate fun h => by cases h) trivial
  | ended i e b r hb hend => exact iff_of_true (hupdate fun h => by cases h) trivial

theorem refused_moved {i : ι} (h : s.tasks i = .refused) (hmove : Moved contextOf body s t s') :
    s'.tasks i = .refused := by
  have hupdate : ∀ {j : ι} {task : Task σ ρ}, s.tasks j ≠ .refused →
      Function.update s.tasks j task i = .refused := by
    intro j task hj
    have hne : i ≠ j := by
      intro heq
      subst heq
      exact hj h
    rw [Function.update_of_ne hne]
    exact h
  cases hmove with
  | notWaiting | notInside => exact h
  | refused j hw henter => exact hupdate (by simp [hw])
  | entered j hw henter => exact hupdate (by simp [hw])
  | goesOn j e b b' hb hgo => exact hupdate (by simp [hb])
  | ended j e b r hb hend => exact hupdate (by simp [hb])

end Steps

section Runs
variable [DecidableEq ι] [DecidableEq κ] {contextOf : ι → κ} {body : Body σ ε ρ}
  {s : Pool ι κ σ ρ}

theorem refused_exec {i : ι} (h : s.tasks i = .refused) (run : List (Turn ι ε)) :
    (exec (Pool.turn contextOf body) s run).tasks i = .refused := by
  induction run generalizing s with
  | nil => exact h
  | cons t run ih => exact ih (refused_moved h moved_turn)

/-- No task of a run was refused exactly when all of them started alone. -/
theorem noneRefused_exec_iff (h : Entered contextOf s) (hnone : s.NoneRefused)
    (run : List (Turn ι ε)) :
    (exec (Pool.turn contextOf body) s run).NoneRefused ↔
      AllSteps (Pool.turn contextOf body) (Alone contextOf) s run := by
  induction run generalizing s with
  | nil => exact iff_of_true hnone trivial
  | cons t run ih =>
      have hstep : (s.turn contextOf body t).NoneRefused ↔ Alone contextOf s t :=
        noneRefused_moved h hnone moved_turn
      constructor
      · intro hend
        have hnext : (s.turn contextOf body t).NoneRefused :=
          fun i hi => hend i (refused_exec hi run)
        exact ⟨hstep.mp hnext, (ih (h.turn t) hnext).mp hend⟩
      · intro hall
        exact (ih (h.turn t) (hstep.mpr hall.1)).mpr hall.2

/-- Where no two tasks share a context, each of them starts alone. -/
theorem alone_of_injective (h : Function.Injective contextOf) (run : List (Turn ι ε)) :
    AllSteps (Pool.turn contextOf body) (Alone contextOf) s run := by
  induction run generalizing s with
  | nil => trivial
  | cons t run ih =>
      refine ⟨?_, ih⟩
      cases t with
      | enter i =>
          intro hw j hj heq
          obtain ⟨b, hb⟩ := h heq ▸ hj
          rw [hw] at hb
          cases hb
      | outcome i e => trivial

/-- The outcomes a task still takes at most, when `budget` bounds those of the body. -/
def Task.due (start : σ) (budget : σ → Nat) : Task σ ρ → Nat
  | .waiting => budget start + 2
  | .inside b => budget b + 1
  | .refused | .finished _ => 0

theorem Task.ended_of_due {start : σ} {budget : σ → Nat} {task : Task σ ρ}
    (h : task.due start budget = 0) : task.Ended := by
  cases task with
  | waiting | inside b => cases h
  | refused | finished r => trivial

/-- The turns of a run start a task and then give it so many outcomes. -/
def Served (i : ι) (outcomes : Nat) (run : List (Turn ι ε)) : Prop :=
  ∃ es : List ε, es.length = outcomes ∧ (Turn.enter i :: es.map (Turn.outcome i)).Sublist run

variable {budget : σ → Nat} {i : ι}

theorem due_moved {s' : Pool ι κ σ ρ} {t : Turn ι ε}
    (hbudget : ∀ b e b', body.advance b e = .inl b' → budget b' < budget b)
    (hmove : Moved contextOf body s t s') :
    (s'.tasks i).due body.start budget ≤ (s.tasks i).due body.start budget := by
  have hupdate : ∀ {j : ι} {task : Task σ ρ},
      task.due body.start budget ≤ (s.tasks j).due body.start budget →
      Task.due body.start budget (Function.update s.tasks j task i) ≤
        (s.tasks i).due body.start budget := by
    intro j task hle
    by_cases hi : i = j
    · subst hi
      rwa [Function.update_self]
    · rw [Function.update_of_ne hi]
  cases hmove with
  | notWaiting | notInside => exact le_refl _
  | refused j hw henter => exact hupdate (Nat.zero_le _)
  | entered j hw henter =>
      apply hupdate
      rw [hw]
      exact Nat.le_succ _
  | goesOn j e b b' hb hgo =>
      apply hupdate
      rw [hb]
      exact Nat.succ_le_succ (hbudget b e b' hgo).le
  | ended j e b r hb hend => exact hupdate (Nat.zero_le _)

theorem started_moved {s' : Pool ι κ σ ρ} {t : Turn ι ε} (h : s.tasks i ≠ .waiting)
    (hmove : Moved contextOf body s t s') : s'.tasks i ≠ .waiting := by
  have hupdate : ∀ {j : ι} {task : Task σ ρ}, task ≠ .waiting →
      Function.update s.tasks j task i ≠ .waiting := by
    intro j task htask
    by_cases hi : i = j
    · subst hi
      rwa [Function.update_self]
    · rwa [Function.update_of_ne hi]
  cases hmove with
  | notWaiting | notInside => exact h
  | refused | entered | goesOn | ended => exact hupdate fun htask => by cases htask

theorem due_of_started {s' : Pool ι κ σ ρ} {t : Turn ι ε} (hwait : s.tasks i = .waiting)
    (hmove : Moved contextOf body s t s') (hstart : s'.tasks i ≠ .waiting) :
    (s'.tasks i).due body.start budget ≤ budget body.start + 1 := by
  have hupdate : ∀ {j : ι} {task : Task σ ρ}, Function.update s.tasks j task i ≠ .waiting →
      task.due body.start budget ≤ budget body.start + 1 →
      Task.due body.start budget (Function.update s.tasks j task i) ≤ budget body.start + 1 := by
    intro j task hne hle
    by_cases hi : i = j
    · subst hi
      rwa [Function.update_self]
    · rw [Function.update_of_ne hi] at hne
      exact (hne hwait).elim
  cases hmove with
  | notWaiting | notInside => exact (hstart hwait).elim
  | refused | ended => exact hupdate hstart (Nat.zero_le _)
  | entered => exact hupdate hstart (le_refl _)
  | goesOn j e b b' hb hgo =>
      have hne : i ≠ j := by
        intro hi
        subst hi
        rw [hwait] at hb
        cases hb
      dsimp only at hstart
      rw [Function.update_of_ne hne] at hstart
      exact (hstart hwait).elim

theorem started_enter {s' : Pool ι κ σ ρ}
    (hmove : Moved contextOf body s (.enter i : Turn ι ε) s') :
    s'.tasks i ≠ .waiting := by
  cases hmove with
  | notWaiting _ hw => exact hw
  | refused | entered => simp

theorem due_outcome {s' : Pool ι κ σ ρ} {e : ε} (hstart : s.tasks i ≠ .waiting)
    (hbudget : ∀ b e b', body.advance b e = .inl b' → budget b' < budget b)
    (hmove : Moved contextOf body s (.outcome i e) s') :
    (s'.tasks i).due body.start budget ≤ (s.tasks i).due body.start budget - 1 := by
  cases hmove with
  | notInside _ _ hb =>
      cases h : s.tasks i with
      | waiting => exact (hstart h).elim
      | inside b => exact (hb ⟨b, h⟩).elim
      | refused | finished r => exact Nat.zero_le _
  | goesOn _ _ b b' hb hgo =>
      dsimp only
      rw [Function.update_self, hb]
      exact hbudget b e b' hgo
  | ended => simp [Task.due]

theorem due_exec (hstart : s.tasks i ≠ .waiting)
    (hbudget : ∀ b e b', body.advance b e = .inl b' → budget b' < budget b)
    {es : List ε} {run : List (Turn ι ε)} (h : (es.map (Turn.outcome i)).Sublist run) :
    ((exec (Pool.turn contextOf body) s run).tasks i).due body.start budget ≤
      (s.tasks i).due body.start budget - es.length := by
  induction run generalizing s es with
  | nil =>
      cases es with
      | nil => exact le_refl _
      | cons e es => cases h
  | cons t run ih =>
      have hmove : Moved contextOf body s t (s.turn contextOf body t) := moved_turn
      have hstart' := started_moved hstart hmove
      have hdue : ((s.turn contextOf body t).tasks i).due body.start budget ≤
          (s.tasks i).due body.start budget := due_moved hbudget hmove
      cases es with
      | nil =>
          have hnil : ((List.nil : List ε).map (Turn.outcome i)).Sublist run := List.nil_sublist run
          exact (ih hstart' hnil).trans hdue
      | cons e es =>
          cases h with
          | cons _ hrest => exact (ih hstart' hrest).trans (Nat.sub_le_sub_right hdue _)
          | cons_cons _ hrest =>
              have hone := due_outcome hstart hbudget hmove
              have hall := ih hstart' hrest
              simp only [exec_cons, List.length_cons]
              omega

/-- A task that is started and served its outcomes has ended. -/
theorem ended_of_served (hwait : s.tasks i = .waiting)
    (hbudget : ∀ b e b', body.advance b e = .inl b' → budget b' < budget b)
    {run : List (Turn ι ε)} (h : Served i (budget body.start + 1) run) :
    ((exec (Pool.turn contextOf body) s run).tasks i).Ended := by
  obtain ⟨es, hlen, hsub⟩ := h
  have hdue : ((exec (Pool.turn contextOf body) s run).tasks i).due body.start budget = 0 := by
    induction run generalizing s with
    | nil => cases hsub
    | cons t run ih =>
        have hmove : Moved contextOf body s t (s.turn contextOf body t) := moved_turn
        have hrest : (es.map (Turn.outcome i)).Sublist run := by
          cases hsub with
          | cons _ hsub => exact (List.sublist_cons_self _ _).trans hsub
          | cons_cons _ hsub => exact hsub
        by_cases hwait' : (s.turn contextOf body t).tasks i = .waiting
        · cases hsub with
          | cons _ hsub => exact ih hwait' hsub
          | cons_cons => exact (started_enter hmove hwait').elim
        · have hstart : ((s.turn contextOf body t).tasks i).due body.start budget ≤
              budget body.start + 1 := due_of_started hwait hmove hwait'
          have hserved :
              ((exec (Pool.turn contextOf body) (s.turn contextOf body t) run).tasks i).due
                  body.start budget ≤
                ((s.turn contextOf body t).tasks i).due body.start budget - es.length :=
            due_exec hwait' hbudget hrest
          rw [exec_cons]
          omega
  exact Task.ended_of_due hdue

end Runs

end Engramia.Library
