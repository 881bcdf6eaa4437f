import Engramia.Patterns.Failure
import Engramia.Library.Net
import Engramia.Library.Run

/-!
The pattern store as a net of the learned tasks. No two stored tasks are to be
near-duplicates, and every learned task is to have a stored near-duplicate.

Nearness is not transitive, and a better run overwrites the first near-duplicate
with its own task. So the net is kept exactly along the runs in which every written
task is far from the patterns that stay and near the learned tasks that only the
overwritten pattern was near to.
-/
namespace Engramia.Patterns
open Engramia.Library Engramia.Storage

variable {F : Type} {svc : LearningService}

def taskAt (patterns : OrderedDict Text Record) (key : Text) : Option Text :=
  (patterns.get? key).bind Record.task

section Runs
variable (svc)

/-- The store and the tasks whose calls returned. -/
abbrev Learned (F : Type) := PatternStore F × List Text

def learnStep (st : PatternStore F) (a : Env F × LearnCall) : PatternStore F :=
  final (learn svc a.1 a.2 st)

def addLearned (st : PatternStore F) (learned : List Text) (a : Env F × LearnCall) : List Text :=
  match outcome (learn svc a.1 a.2 st) with
  | .ok _ => a.2.task :: learned
  | .error _ => learned

abbrev dedupStep : Learned F → Env F × LearnCall → Learned F :=
  withHistory (learnStep svc) (addLearned svc)

structure TaskNet (s : Learned F) : Prop where
  separated : Separated (Duplicate svc.text) (taskAt s.1.patterns)
  covered : ∀ task ∈ s.2, Covers (Duplicate svc.text) (taskAt s.1.patterns) task

/-- A call that writes a record writes a task with words, far from the patterns that
stay, and near the learned tasks that none of these is near to. -/
structure KeepsNet (s : Learned F) (a : Env F × LearnCall) : Prop where
  far : ∀ key, writtenKey svc a.1 a.2 s.1.patterns = some key →
    ∀ k task, k ≠ key → taskAt s.1.patterns k = some task → ¬ Duplicate svc.text task a.2.task
  near : ∀ key, writtenKey svc a.1 a.2 s.1.patterns = some key → ∀ learned ∈ s.2,
    Duplicate svc.text a.2.task learned ∨
      ∃ k task, k ≠ key ∧ taskAt s.1.patterns k = some task ∧ Duplicate svc.text task learned
  words : ∀ key, writtenKey svc a.1 a.2 s.1.patterns = some key →
    ¬ FinishRaises svc a.1 a.2 s.1.embeddings → words svc.text a.2.task ≠ ∅

end Runs

theorem taskNet_empty : TaskNet svc ((emptyPatternStore : PatternStore F), []) := by
  refine ⟨separated_none, ?_⟩
  intro task h
  exact absurd h List.not_mem_nil

section Steps
variable {s : Learned F} {a : Env F × LearnCall}

/-- A call that writes nothing learns at most a task that is covered. -/
theorem TaskNet.kept (h : TaskNet svc s)
    (hkey : writtenKey svc a.1 a.2 s.1.patterns = none) : TaskNet svc (dedupStep svc s a) := by
  have hleaves := learn_of_not_written hkey
  have hstore : (dedupStep svc s a).1 = s.1 := hleaves.unchanged
  refine ⟨by rw [hstore]; exact h.separated, ?_⟩
  rw [hstore]
  intro task hmem
  have hlearned : task ∈ addLearned svc s.1 s.2 a := hmem
  rw [addLearned] at hlearned
  cases hout : outcome (learn svc a.1 a.2 s.1) with
  | error e =>
      rw [hout] at hlearned
      exact h.covered task hlearned
  | ok r =>
      rw [hout] at hlearned
      cases List.mem_cons.mp hlearned with
      | inr hold => exact h.covered task hold
      | inl hnew =>
          obtain ⟨-, found, hfound, -⟩ := hleaves.answer r hout
          rw [existing] at hfound
          split at hfound
          · cases hfound
          · obtain ⟨hget, hdup⟩ := (findDuplicate_eq_some.mp hfound).1
            rw [isDuplicate] at hdup
            cases ht : found.2.task with
            | none => rw [ht] at hdup; cases hdup
            | some existingTask =>
                rw [ht] at hdup
                refine ⟨found.1, existingTask, ?_, ?_⟩
                · rw [taskAt, hget]
                  exact ht
                · rw [hnew]
                  exact of_decide_eq_true hdup

theorem taskAt_written {key : Text} (hkey : writtenKey svc a.1 a.2 s.1.patterns = some key) :
    taskAt (dedupStep svc s a).1.patterns =
      Function.update (taskAt s.1.patterns) key (some a.2.task) := by
  have hwrites := learn_of_some hkey
  funext k
  show ((final (learn svc a.1 a.2 s.1)).patterns.get? k).bind Record.task = _
  rw [hwrites.patterns]
  by_cases hk : k = key
  · rw [if_pos hk, hk, Function.update_self]
    exact (storedRecord_fields s.1.embeddings).1
  · rw [if_neg hk, Function.update_of_ne hk]
    rfl

theorem mem_learned_written {key : Text} (hkey : writtenKey svc a.1 a.2 s.1.patterns = some key)
    (task : Text) : task ∈ (dedupStep svc s a).2 ↔
      task ∈ s.2 ∨ (task = a.2.task ∧ ¬ FinishRaises svc a.1 a.2 s.1.embeddings) := by
  show task ∈ addLearned svc s.1 s.2 a ↔ _
  rw [← (learn_of_some hkey).raises, addLearned]
  cases outcome (learn svc a.1 a.2 s.1) with
  | error e => simp
  | ok r => simp [or_comm]

theorem covers_written_iff {f : Text → Option Text} {key task : Text} :
    Covers (Duplicate svc.text) (Function.update f key (some task)) task ↔
      words svc.text task ≠ ∅ := by
  constructor
  · intro h
    obtain ⟨_, _, _, hnear⟩ := h
    exact (duplicate_iff.mp hnear).2.1
  · intro h
    exact covers_update.mpr (.inl (duplicate_self.mpr h))

theorem taskNet_step (h : TaskNet svc s) :
    TaskNet svc (dedupStep svc s a) ↔ KeepsNet svc s a := by
  cases hkey : writtenKey svc a.1 a.2 s.1.patterns with
  | none =>
      refine iff_of_true (h.kept hkey) ⟨?_, ?_, ?_⟩ <;>
      · intro key hsome
        rw [hkey] at hsome
        cases hsome
  | some key =>
      have htasks := taskAt_written hkey
      have hwrites := learn_of_some hkey
      have hmem := fun task => mem_learned_written hkey task
      constructor
      · intro hnet
        refine ⟨?_, ?_, ?_⟩
        · intro key' hkey' k task hk htask
          rw [hkey] at hkey'
          cases hkey'
          have hsep := hnet.separated
          rw [htasks, separated_update (fun _ _ hd => hd.symm) h.separated] at hsep
          exact hsep k task hk htask
        · intro key' hkey' learned hlearned
          rw [hkey] at hkey'
          cases hkey'
          have hcov := hnet.covered learned ((hmem learned).mpr (.inl hlearned))
          rw [htasks] at hcov
          exact covers_update.mp hcov
        · intro key' _ hok
          have hcov := hnet.covered a.2.task ((hmem a.2.task).mpr (.inr ⟨rfl, hok⟩))
          rw [htasks] at hcov
          exact covers_written_iff.mp hcov
      · intro hkeeps
        constructor
        · rw [htasks, separated_update (fun _ _ hd => hd.symm) h.separated]
          exact hkeeps.far key hkey
        · intro task htask
          rw [htasks]
          cases (hmem task).mp htask with
          | inl hold => exact covers_update.mpr (hkeeps.near key hkey task hold)
          | inr hnew =>
              rw [hnew.1]
              exact covers_written_iff.mpr (hkeeps.words key hkey hnew.2)

theorem keepsNet_of_new (h : TaskNet svc s) (hboth : a.2.onDuplicate ≠ .keepBoth)
    (hnew : existing svc a.2 s.1.patterns = none)
    (hfresh : s.1.patterns.get? (patternKey a.1.stamp) = none)
    (hwords : words svc.text a.2.task ≠ ∅) : KeepsNet svc s a := by
  have hkey : ∀ key, writtenKey svc a.1 a.2 s.1.patterns = some key →
      key = patternKey a.1.stamp := by
    intro key hkey
    rw [writtenKey, hnew] at hkey
    split at hkey
    · cases hkey
    · exact (Option.some.inj hkey).symm
  have hat : taskAt s.1.patterns (patternKey a.1.stamp) = none := by
    rw [taskAt, hfresh]
    rfl
  refine ⟨?_, ?_, fun _ _ _ => hwords⟩
  · intro key _ k task _ htask hdup
    obtain ⟨r, hr, hrtask⟩ := Option.bind_eq_some_iff.mp htask
    rw [existing, if_neg hboth] at hnew
    have hnone := findDuplicate_eq_none.mp hnew k r hr
    rw [isDuplicate, hrtask] at hnone
    exact of_decide_eq_false hnone hdup
  · intro key hsome learned hlearned
    obtain ⟨k, task, htask, hnear⟩ := h.covered learned hlearned
    refine .inr ⟨k, task, ?_, htask, hnear⟩
    intro hk
    rw [hk, hkey key hsome, hat] at htask
    cases htask

end Steps

/-- From the empty store, the patterns are a net of the learned tasks throughout a
run exactly when every call of it keeps the net. -/
theorem dedup_invariant_iff (svc : LearningService) (calls : List (Env F × LearnCall)) :
    Always (dedupStep svc) (TaskNet svc) (emptyPatternStore, []) calls ↔
      AllSteps (dedupStep svc) (KeepsNet svc) (emptyPatternStore, []) calls :=
  always_iff_allSteps (fun _ _ h => taskNet_step h) taskNet_empty calls

section Example

def learnTask (stamp task : String) (score : ℚ) : Env Nat × LearnCall :=
  ({ outageEnv with stamp := stamp.toList, embeddings := none },
    { sortCall with task := task.toList, evalScore := score })

/-- Two better runs in a row leave the first task without a pattern near it. -/
def driftingCalls : List (Env Nat × LearnCall) :=
  [learnTask "1" "a b c d e f g h i j k l" 5,
    learnTask "2" "a b c d e f g h i j k l m" 6,
    learnTask "3" "a b c d e f g h i j k l m n" 7]

/-- A better run between two patterns is written over the first and stays near the
second. -/
def bridgingCalls : List (Env Nat × LearnCall) :=
  [learnTask "1" "a b c d e f g h i j k l" 5,
    learnTask "2" "b c d e f g h i j k l m" 5,
    learnTask "3" "a b c d e f g h i j k l m" 6]

theorem replacement_breaks_net :
    ¬ Always (dedupStep plainService) (TaskNet plainService) (emptyPatternStore, [])
      driftingCalls ∧
    ¬ Always (dedupStep plainService) (TaskNet plainService) (emptyPatternStore, [])
      bridgingCalls := by
  constructor
  · intro h
    obtain ⟨k, task, htask, hnear⟩ :=
      (Always.last h).covered "a b c d e f g h i j k l".toList (by decide)
    obtain ⟨r, hr, hrtask⟩ := Option.bind_eq_some_iff.mp htask
    have hfar : ∀ x ∈ (exec (dedupStep plainService) (emptyPatternStore, [])
        driftingCalls).1.patterns.entries, ∀ t ∈ x.2.task,
          ¬ Duplicate asciiText t "a b c d e f g h i j k l".toList := by decide
    exact hfar (k, r) (OrderedDict.get?_eq_some.mp hr) task hrtask hnear
  · intro h
    apply (Always.last h).separated (patternKey "1".toList) (patternKey "2".toList)
      "a b c d e f g h i j k l m".toList "b c d e f g h i j k l m".toList
    · decide
    · decide
    · decide
    · decide

end Example

end Engramia.Patterns
