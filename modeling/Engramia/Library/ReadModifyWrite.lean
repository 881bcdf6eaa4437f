import Engramia.Library.Run
import Mathlib.Logic.Function.Basic
import Mathlib.Data.List.Nodup
import Mathlib.Data.List.Perm.Basic

/-!
Cells that callers change by loading a value, computing another from it and
saving that. The load and the save are two steps, and a call whose cell is
saved by somebody else in between writes over what was saved.

A call is serial when its save directly follows its load. Calls whose cells are
left alone in between leave what they would leave one after another, in the
order of their saves. For a cell that counts its calls this is also needed.
-/
namespace Engramia.Library

universe u v w
variable {κ : Type u} {ν : κ → Type v} {ι : Type w}

/-- The cell a call works on and what it saves for the value it has loaded, if
anything. -/
structure Edit (κ : Type u) (ν : κ → Type v) where
  key : κ
  edit : ν key → Option (ν key)

/-- Where a call stands. A loaded value is kept with the number of saves its cell
had seen by then. -/
inductive EditPhase (α : Type v) where
  | idle
  | loaded (value : α) (stamp : Nat)
  | finished

structure Cells (calls : ι → Edit κ ν) where
  cell : (k : κ) → ν k
  saves : κ → Nat
  phase : (i : ι) → EditPhase (ν (calls i).key)
  /-- The finished calls, in the order in which they finished. -/
  done : List ι

inductive EditStep (ι : Type w) where
  | load (i : ι)
  | save (i : ι)
deriving DecidableEq

section Steps
variable [DecidableEq κ] [DecidableEq ι] (calls : ι → Edit κ ν)

/-- What a call leaves in the cells when nothing comes between its steps. -/
def applyEdit (cell : (k : κ) → ν k) (i : ι) : (k : κ) → ν k :=
  match (calls i).edit (cell (calls i).key) with
  | some value => Function.update cell (calls i).key value
  | none => cell

def saveLoaded (s : Cells calls) (i : ι) (loaded : ν (calls i).key) : Cells calls :=
  let done := s.done ++ [i]
  let phase := Function.update s.phase i .finished
  match (calls i).edit loaded with
  | some value =>
      { cell := Function.update s.cell (calls i).key value
        saves := Function.update s.saves (calls i).key (s.saves (calls i).key + 1)
        phase := phase
        done := done }
  | none => { s with phase := phase, done := done }

def editStep (s : Cells calls) : EditStep ι → Cells calls
  | .load i =>
      match s.phase i with
      | .idle =>
          let value := s.cell (calls i).key
          { s with
            phase := Function.update s.phase i (.loaded value (s.saves (calls i).key)) }
      | _ => s
  | .save i =>
      match s.phase i with
      | .loaded value _ => saveLoaded calls s i value
      | _ => s

def initialCells (cell : (k : κ) → ν k) : Cells calls :=
  ⟨cell, fun _ => 0, fun _ => .idle, []⟩

/-- The schedule that runs calls one after another. -/
def serially (order : List ι) : List (EditStep ι) :=
  order.flatMap fun i => [.load i, .save i]

/-- The cells are those some order of the finished calls leaves. -/
def Serializable (cell : (k : κ) → ν k) (s : Cells calls) : Prop :=
  ∃ order : List ι, order.Perm s.done ∧
    s.cell = (exec (editStep calls) (initialCells calls cell) (serially order)).cell

/-- No save has come to the cell since the call that saves now loaded it. -/
def Undisturbed (s : Cells calls) : EditStep ι → Prop
  | .load _ => True
  | .save i =>
      match s.phase i with
      | .loaded _ stamp => stamp = s.saves (calls i).key
      | _ => True

/-- The same for the cells of a selection only. -/
def UndisturbedOn (K : κ → Prop) (s : Cells calls) (a : EditStep ι) : Prop :=
  match a with
  | .load _ => True
  | .save i => K (calls i).key → Undisturbed calls s (.save i)

variable {calls}

/-- What a loaded value is known to be. -/
structure Consistent (s : Cells calls) : Prop where
  stamp_le : ∀ i value stamp, s.phase i = .loaded value stamp →
    stamp ≤ s.saves (calls i).key
  current : ∀ i value stamp, s.phase i = .loaded value stamp →
    stamp = s.saves (calls i).key → value = s.cell (calls i).key
  finished : ∀ i ∈ s.done, s.phase i = .finished
  nodup : s.done.Nodup

variable {s : Cells calls} {cell : (k : κ) → ν k} {i : ι}

theorem saveLoaded_phase (loaded : ν (calls i).key) :
    (saveLoaded calls s i loaded).phase = Function.update s.phase i .finished := by
  rw [saveLoaded]
  cases (calls i).edit loaded with
  | none => rfl
  | some value => rfl

theorem saveLoaded_done (loaded : ν (calls i).key) :
    (saveLoaded calls s i loaded).done = s.done ++ [i] := by
  rw [saveLoaded]
  cases (calls i).edit loaded with
  | none => rfl
  | some value => rfl

theorem saves_le_saveLoaded (loaded : ν (calls i).key) (k : κ) :
    s.saves k ≤ (saveLoaded calls s i loaded).saves k := by
  rw [saveLoaded]
  cases (calls i).edit loaded with
  | none => exact Nat.le_refl _
  | some value =>
      by_cases hk : k = (calls i).key
      · subst hk
        simp
      · simp [Function.update_of_ne hk]

theorem cell_saveLoaded (loaded : ν (calls i).key) {k : κ}
    (h : s.saves k = (saveLoaded calls s i loaded).saves k) :
    (saveLoaded calls s i loaded).cell k = s.cell k := by
  rw [saveLoaded] at h ⊢
  cases hedit : (calls i).edit loaded with
  | none => rfl
  | some value =>
      have hk : k ≠ (calls i).key := by
        intro hk
        subst hk
        simp [hedit] at h
      simp [Function.update_of_ne hk]

theorem saveLoaded_self {loaded next : ν (calls i).key}
    (hedit : (calls i).edit loaded = some next) :
    (saveLoaded calls s i loaded).cell (calls i).key = next ∧
    (saveLoaded calls s i loaded).saves (calls i).key = s.saves (calls i).key + 1 := by
  simp only [saveLoaded, hedit, Function.update_self, and_self]

theorem saveLoaded_other {loaded : ν (calls i).key} {k : κ} (hk : k ≠ (calls i).key) :
    (saveLoaded calls s i loaded).cell k = s.cell k ∧
    (saveLoaded calls s i loaded).saves k = s.saves k := by
  rw [saveLoaded]
  cases (calls i).edit loaded with
  | none => exact ⟨rfl, rfl⟩
  | some next => exact ⟨Function.update_of_ne hk _ _, Function.update_of_ne hk _ _⟩

theorem saveLoaded_current :
    (saveLoaded calls s i (s.cell (calls i).key)).cell = applyEdit calls s.cell i := by
  rw [saveLoaded, applyEdit]
  cases (calls i).edit (s.cell (calls i).key) with
  | none => rfl
  | some value => rfl

omit [DecidableEq κ] [DecidableEq ι] in
theorem consistent_initial : Consistent (initialCells calls cell) where
  stamp_le _ _ _ h := by cases h
  current _ _ _ h := by cases h
  finished _ h := by cases h
  nodup := List.nodup_nil

theorem Consistent.load (h : Consistent s) (i : ι) : Consistent (editStep calls s (.load i)) := by
  rw [editStep]
  cases hphase : s.phase i with
  | loaded value stamp => exact h
  | finished => exact h
  | idle =>
      refine ⟨?_, ?_, ?_, h.nodup⟩
      · intro j value stamp hj
        by_cases hji : j = i
        · subst hji
          simp only [Function.update_self] at hj
          cases hj
          exact Nat.le_refl _
        · simp only [Function.update_of_ne hji] at hj
          exact h.stamp_le j value stamp hj
      · intro j value stamp hj hstamp
        by_cases hji : j = i
        · subst hji
          simp only [Function.update_self] at hj
          cases hj
          rfl
        · simp only [Function.update_of_ne hji] at hj
          exact h.current j value stamp hj hstamp
      · intro j hj
        have hji : j ≠ i := by
          intro hji
          rw [hji] at hj
          rw [h.finished i hj] at hphase
          cases hphase
        simp only [Function.update_of_ne hji]
        exact h.finished j hj

theorem Consistent.save (h : Consistent s) (i : ι) : Consistent (editStep calls s (.save i)) := by
  rw [editStep]
  cases hphase : s.phase i with
  | idle => exact h
  | finished => exact h
  | loaded value stamp =>
      show Consistent (saveLoaded calls s i value)
      -- the other calls' loads only fall further behind
      have hother : ∀ j v t, (saveLoaded calls s i value).phase j = .loaded v t →
          s.phase j = .loaded v t := by
        intro j v t hj
        rw [saveLoaded_phase] at hj
        by_cases hji : j = i
        · subst hji
          rw [Function.update_self] at hj
          cases hj
        · rwa [Function.update_of_ne hji] at hj
      refine ⟨?_, ?_, ?_, ?_⟩
      · intro j v t hj
        exact Nat.le_trans (h.stamp_le j v t (hother j v t hj)) (saves_le_saveLoaded value _)
      · intro j v t hj ht
        have hle := h.stamp_le j v t (hother j v t hj)
        have hge := saves_le_saveLoaded (s := s) value (calls j).key
        have hsame : t = s.saves (calls j).key := by omega
        rw [cell_saveLoaded value (hsame.symm.trans ht)]
        exact h.current j v t (hother j v t hj) hsame
      · intro j hj
        rw [saveLoaded_done, List.mem_append, List.mem_singleton] at hj
        rw [saveLoaded_phase]
        by_cases hji : j = i
        · rw [hji, Function.update_self]
        · rw [Function.update_of_ne hji]
          exact h.finished j (hj.resolve_right hji)
      · rw [saveLoaded_done]
        refine List.Nodup.append h.nodup (List.nodup_singleton i) ?_
        rw [List.disjoint_singleton]
        intro hi
        rw [h.finished i hi] at hphase
        cases hphase

theorem Consistent.step (h : Consistent s) (a : EditStep ι) : Consistent (editStep calls s a) := by
  cases a with
  | load i => exact h.load i
  | save i => exact h.save i

theorem consistent_always (run : List (EditStep ι)) :
    Always (editStep calls) Consistent (initialCells calls cell) run :=
  always_of_step (fun _ a h => h.step a) consistent_initial run

theorem Consistent.save_undisturbed (h : Consistent s) {value : ν (calls i).key} {stamp : Nat}
    (hphase : s.phase i = .loaded value stamp) (hfree : Undisturbed calls s (.save i)) :
    (editStep calls s (.save i)).cell = applyEdit calls s.cell i ∧
    (editStep calls s (.save i)).done = s.done ++ [i] := by
  have hstamp : stamp = s.saves (calls i).key := by
    simpa only [Undisturbed, hphase] using hfree
  simp only [editStep, hphase]
  rw [h.current i value stamp hphase hstamp]
  exact ⟨saveLoaded_current, saveLoaded_done _⟩

section Serial

/-- The cells are those the finished calls leave one after another. -/
def InOrder (cell : (k : κ) → ν k) (s : Cells calls) : Prop :=
  s.cell = s.done.foldl (applyEdit calls) cell

theorem InOrder.step (h : InOrder cell s) (hc : Consistent s) {a : EditStep ι}
    (hfree : Undisturbed calls s a) : InOrder cell (editStep calls s a) := by
  cases a with
  | load i =>
      rw [editStep]
      cases hphase : s.phase i with
      | idle => exact h
      | loaded value stamp => exact h
      | finished => exact h
  | save i =>
      cases hphase : s.phase i with
      | idle => simpa only [editStep, hphase] using h
      | finished => simpa only [editStep, hphase] using h
      | loaded value stamp =>
          obtain ⟨hcell, hdone⟩ := hc.save_undisturbed hphase hfree
          rw [InOrder, hcell, hdone, List.foldl_append, h]
          rfl

theorem inOrder_of_undisturbed {run : List (EditStep ι)}
    (h : AllSteps (editStep calls) (Undisturbed calls) (initialCells calls cell) run) :
    Always (editStep calls) (InOrder cell) (initialCells calls cell) run := by
  have hboth : Always (editStep calls) (fun s => Consistent s ∧ InOrder cell s)
      (initialCells calls cell) run := by
    apply always_of_allSteps _ _ h
    · intro s a hs hfree
      exact ⟨hs.1.step a, hs.2.step hs.1 hfree⟩
    · exact ⟨consistent_initial, rfl⟩
  exact hboth.mono fun s hs => hs.2

theorem exec_alone (hidle : s.phase i = .idle) :
    (exec (editStep calls) s [.load i, .save i]).cell = applyEdit calls s.cell i ∧
    (exec (editStep calls) s [.load i, .save i]).phase = Function.update s.phase i .finished := by
  simp only [exec_cons, exec_nil, editStep, hidle, Function.update_self]
  constructor
  · rw [saveLoaded, applyEdit]
    cases (calls i).edit (s.cell (calls i).key) with
    | none => rfl
    | some value => rfl
  · rw [saveLoaded_phase, Function.update_idem]

theorem exec_serially {order : List ι} (hnodup : order.Nodup)
    (hidle : ∀ i ∈ order, s.phase i = .idle) :
    (exec (editStep calls) s (serially order)).cell = order.foldl (applyEdit calls) s.cell := by
  induction order generalizing s with
  | nil => rfl
  | cons i order ih =>
      obtain ⟨hcell, hphase⟩ := exec_alone (hidle i List.mem_cons_self)
      have hsplit : exec (editStep calls) s (serially (i :: order)) =
          exec (editStep calls) (exec (editStep calls) s [.load i, .save i])
            (serially order) := rfl
      rw [hsplit, ih hnodup.of_cons, hcell]
      · rfl
      · intro j hj
        have hji : j ≠ i := by
          intro hji
          rw [hji] at hj
          exact (List.nodup_cons.mp hnodup).1 hj
        rw [hphase, Function.update_of_ne hji]
        exact hidle j (List.mem_cons_of_mem i hj)

theorem serializable_iff (h : s.done.Nodup) : Serializable calls cell s ↔
    ∃ order : List ι, order.Perm s.done ∧ s.cell = order.foldl (applyEdit calls) cell := by
  apply exists_congr
  intro order
  apply and_congr_right
  intro hperm
  rw [exec_serially (hperm.nodup_iff.mpr h) fun _ _ => rfl]
  rfl

theorem serializable_of_undisturbed {run : List (EditStep ι)}
    (h : AllSteps (editStep calls) (Undisturbed calls) (initialCells calls cell) run) :
    Always (editStep calls) (Serializable calls cell) (initialCells calls cell) run := by
  rw [always_iff_prefixes]
  intro pre hpre
  have hin := always_iff_prefixes.mp (inOrder_of_undisturbed h) pre hpre
  have hcons : Consistent (exec (editStep calls) (initialCells calls cell) pre) :=
    always_iff_prefixes.mp (consistent_always run) pre hpre
  rw [serializable_iff hcons.nodup]
  exact ⟨_, List.Perm.refl _, hin⟩

end Serial

section Counting
variable {K : κ → Prop} {P : (k : κ) → ν k → Prop} {count : (k : κ) → ν k → Nat}

/-- Every call on a selected cell saves, and adds one to what the cell counts. -/
def Counts (calls : ι → Edit κ ν) (K : κ → Prop) (P : (k : κ) → ν k → Prop)
    (count : (k : κ) → ν k → Nat) : Prop :=
  ∀ i value, K (calls i).key → P (calls i).key value →
    ∃ next, (calls i).edit value = some next ∧ P (calls i).key next ∧
      count (calls i).key next = count (calls i).key value + 1

/-- No cell counts more than its saves, and no loaded value more than the saves up to
its load. -/
structure Tally (K : κ → Prop) (P : (k : κ) → ν k → Prop) (count : (k : κ) → ν k → Nat)
    (cell : (k : κ) → ν k) (s : Cells calls) : Prop where
  consistent : Consistent s
  valid : ∀ k, K k → P k (s.cell k)
  le : ∀ k, K k → count k (s.cell k) ≤ count k (cell k) + s.saves k
  loaded : ∀ i value stamp, s.phase i = .loaded value stamp → K (calls i).key →
    P (calls i).key value ∧ count (calls i).key value ≤ count (calls i).key (cell _) + stamp
  done : ∀ k, K k → s.saves k = s.done.countP fun i => (calls i).key = k

/-- Every save of a selected cell is counted in it. -/
def AllCounted (K : κ → Prop) (count : (k : κ) → ν k → Nat) (cell : (k : κ) → ν k)
    (s : Cells calls) : Prop :=
  ∀ k, K k → count k (s.cell k) = count k (cell k) + s.saves k

omit [DecidableEq ι] in
theorem tally_initial (h : ∀ k, K k → P k (cell k)) :
    Tally K P count cell (initialCells calls cell) where
  consistent := consistent_initial
  valid := h
  le _ _ := Nat.le_refl _
  loaded _ _ _ hphase := by cases hphase
  done _ _ := rfl

theorem Tally.load (h : Tally K P count cell s) (i : ι) :
    Tally K P count cell (editStep calls s (.load i)) := by
  have hcons := h.consistent.load i
  rw [editStep] at hcons ⊢
  cases hphase : s.phase i with
  | loaded value stamp => exact h
  | finished => exact h
  | idle =>
      simp only [hphase] at hcons
      refine ⟨hcons, h.valid, h.le, ?_, h.done⟩
      intro j value stamp hj hK
      by_cases hji : j = i
      · subst hji
        simp only [Function.update_self] at hj
        cases hj
        exact ⟨h.valid _ hK, h.le _ hK⟩
      · simp only [Function.update_of_ne hji] at hj
        exact h.loaded j value stamp hj hK

theorem Tally.save (hcount : Counts calls K P count) (h : Tally K P count cell s) (i : ι) :
    Tally K P count cell (editStep calls s (.save i)) := by
  have hcons := h.consistent.save i
  rw [editStep] at hcons ⊢
  cases hphase : s.phase i with
  | idle => exact h
  | finished => exact h
  | loaded value stamp =>
      simp only [hphase] at hcons
      show Tally K P count cell (saveLoaded calls s i value)
      have hstamp := h.consistent.stamp_le i value stamp hphase
      refine ⟨hcons, ?_, ?_, ?_, ?_⟩
      · intro k hk
        by_cases hki : k = (calls i).key
        · subst hki
          obtain ⟨next, hedit, hnext, -⟩ := hcount i value hk (h.loaded i value stamp hphase hk).1
          rwa [(saveLoaded_self hedit).1]
        · rw [(saveLoaded_other hki).1]
          exact h.valid k hk
      · intro k hk
        by_cases hki : k = (calls i).key
        · subst hki
          obtain ⟨hP, hle⟩ := h.loaded i value stamp hphase hk
          obtain ⟨next, hedit, -, hadd⟩ := hcount i value hk hP
          rw [(saveLoaded_self hedit).1, (saveLoaded_self hedit).2]
          omega
        · rw [(saveLoaded_other hki).1, (saveLoaded_other hki).2]
          exact h.le k hk
      · intro j v t hj hk
        rw [saveLoaded_phase] at hj
        by_cases hji : j = i
        · subst hji
          rw [Function.update_self] at hj
          cases hj
        · rw [Function.update_of_ne hji] at hj
          exact h.loaded j v t hj hk
      · intro k hk
        rw [saveLoaded_done, List.countP_append, List.countP_singleton]
        by_cases hki : k = (calls i).key
        · subst hki
          obtain ⟨next, hedit, -, -⟩ := hcount i value hk (h.loaded i value stamp hphase hk).1
          rw [(saveLoaded_self hedit).2, h.done _ hk, if_pos (decide_eq_true rfl)]
        · rw [(saveLoaded_other hki).2, h.done k hk, if_neg (by simpa using Ne.symm hki)]
          rfl

theorem Tally.step (hcount : Counts calls K P count) (h : Tally K P count cell s)
    (a : EditStep ι) : Tally K P count cell (editStep calls s a) := by
  cases a with
  | load i => exact h.load i
  | save i => exact h.save hcount i

theorem Tally.allCounted_step (hcount : Counts calls K P count) (h : Tally K P count cell s)
    (a : EditStep ι) : AllCounted K count cell (editStep calls s a) ↔
      AllCounted K count cell s ∧ UndisturbedOn calls K s a := by
  cases a with
  | load i =>
      rw [editStep]
      cases s.phase i with
      | idle => exact (and_iff_left trivial).symm
      | loaded value stamp => exact (and_iff_left trivial).symm
      | finished => exact (and_iff_left trivial).symm
  | save i =>
      rw [UndisturbedOn, Undisturbed, editStep]
      cases hphase : s.phase i with
      | idle => exact (and_iff_left fun _ => trivial).symm
      | finished => exact (and_iff_left fun _ => trivial).symm
      | loaded value stamp =>
          show AllCounted K count cell (saveLoaded calls s i value) ↔
            AllCounted K count cell s ∧ (K (calls i).key → stamp = s.saves (calls i).key)
          have hstamp := h.consistent.stamp_le i value stamp hphase
          constructor
          · intro hall
            have hfree : K (calls i).key → stamp = s.saves (calls i).key := by
              intro hk
              obtain ⟨hP, hle⟩ := h.loaded i value stamp hphase hk
              obtain ⟨next, hedit, -, hadd⟩ := hcount i value hk hP
              have hself := hall _ hk
              rw [(saveLoaded_self hedit).1, (saveLoaded_self hedit).2] at hself
              omega
            refine ⟨?_, hfree⟩
            intro k hk
            have hself := hall k hk
            by_cases hki : k = (calls i).key
            · subst hki
              obtain ⟨next, hedit, -, hadd⟩ :=
                hcount i value hk (h.loaded i value stamp hphase hk).1
              rw [(saveLoaded_self hedit).1, (saveLoaded_self hedit).2, hadd,
                h.consistent.current i value stamp hphase (hfree hk)] at hself
              omega
            · rwa [(saveLoaded_other hki).1, (saveLoaded_other hki).2] at hself
          · intro hall k hk
            by_cases hki : k = (calls i).key
            · subst hki
              obtain ⟨next, hedit, -, hadd⟩ :=
                hcount i value hk (h.loaded i value stamp hphase hk).1
              rw [(saveLoaded_self hedit).1, (saveLoaded_self hedit).2, hadd,
                h.consistent.current i value stamp hphase (hall.2 hk), hall.1 _ hk]
              omega
            · rw [(saveLoaded_other hki).1, (saveLoaded_other hki).2]
              exact hall.1 k hk

theorem allCounted_exec_iff (hcount : Counts calls K P count) (hP : ∀ k, K k → P k (cell k))
    (run : List (EditStep ι)) :
    AllCounted K count cell (exec (editStep calls) (initialCells calls cell) run) ↔
      AllSteps (editStep calls) (UndisturbedOn calls K) (initialCells calls cell) run := by
  rw [exec_iff_allSteps (fun _ a h => Tally.step hcount h a)
    (fun _ a h => Tally.allCounted_step hcount h a) (tally_initial hP)]
  exact and_iff_right fun _ _ => rfl

omit [DecidableEq ι] in
theorem count_foldl (hcount : Counts calls K P count) (hP : ∀ k, K k → P k (cell k))
    (order : List ι) {k : κ} (hk : K k) :
    P k (order.foldl (applyEdit calls) cell k) ∧
    count k (order.foldl (applyEdit calls) cell k) =
      count k (cell k) + order.countP fun i => (calls i).key = k := by
  induction order generalizing cell with
  | nil => exact ⟨hP k hk, rfl⟩
  | cons i order ih =>
      have hnext : ∀ k, K k → P k (applyEdit calls cell i k) ∧
          count k (applyEdit calls cell i k) =
            count k (cell k) + if (calls i).key = k then 1 else 0 := by
        intro k hk
        rw [applyEdit]
        by_cases hki : k = (calls i).key
        · subst hki
          obtain ⟨next, hedit, hnext, hadd⟩ := hcount i _ hk (hP _ hk)
          simp [hedit, hnext, hadd]
        · rw [if_neg (Ne.symm hki)]
          cases (calls i).edit (cell (calls i).key) with
          | none => exact ⟨hP k hk, rfl⟩
          | some next =>
              simp only [Function.update_of_ne hki]
              exact ⟨hP k hk, rfl⟩
      obtain ⟨hvalid, htotal⟩ := ih fun k hk => (hnext k hk).1
      refine ⟨hvalid, ?_⟩
      rw [List.foldl_cons, htotal, (hnext k hk).2, List.countP_cons]
      simp only [decide_eq_true_eq]
      omega

/-- Where the selected cells count their calls, a run that is serializable in the end has
left each of them alone between the load and the save of every call. -/
theorem undisturbedOn_of_serializable (hcount : Counts calls K P count)
    (hP : ∀ k, K k → P k (cell k)) {run : List (EditStep ι)}
    (h : Serializable calls cell (exec (editStep calls) (initialCells calls cell) run)) :
    AllSteps (editStep calls) (UndisturbedOn calls K) (initialCells calls cell) run := by
  have hall : Always (editStep calls) (Tally K P count cell) (initialCells calls cell) run :=
    always_of_step (P := Tally K P count cell) (fun _ a h => h.step hcount a) (tally_initial hP) run
  have htally := hall.last
  obtain ⟨order, hperm, hcell⟩ := (serializable_iff htally.consistent.nodup).mp h
  rw [← allCounted_exec_iff hcount hP]
  intro k hk
  rw [hcell, (count_foldl hcount hP order hk).2, htally.done k hk, hperm.countP_eq]

end Counting

end Steps

end Engramia.Library
