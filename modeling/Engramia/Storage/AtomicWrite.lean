import Engramia.Storage.Writes
import Engramia.Library.Run

/-!
Concurrent saves and loads of one key, call by call. A save writes the temporary
file, tests for the document, moves the document to the backup name if it was
there and moves the temporary file into place; a load tests for the document and
opens it. A crash loses every thread and leaves the files.

The two moves leave a time without a document, and all saves write through one
temporary file. Loads return what was saved as long as saves do not overlap and
no load or crash comes between the two moves.
-/
namespace Engramia.Storage
open Engramia.Library

variable {V F : Type} {dir : Path} {x : Text}

/-- Where a thread stands, with what it holds. A load remembers which saves had
completed when it began. -/
inductive Phase (V : Type) where
  | idle
  | wrote (v : V)
  | found (v : V)
  | publishing (v : V) (displaced : Bool)
  | opening (before : List V)

inductive Event (V : Type) where
  | saved (v : V)
  | saveRaised (e : FileError)
  | loaded (v : V)
  | nothing (before : List V)
  | loadRaised (e : FileError)
deriving DecidableEq

structure Process (V : Type) where
  files : Files V
  phase : Nat → Phase V
  completed : List V
  log : List (Event V)

inductive FileCall (V : Type) where
  | save (i : Nat) (v : V)
  | load (i : Nat)
  | next (i : Nat)
  | crash

namespace Process
variable (st : Process V) (i : Nat)

def enter (p : Phase V) : Process V :=
  { st with phase := fun j => if j = i then p else st.phase j }

/-- A thread returns, or raises. -/
def finish (e : Event V) : Process V :=
  { st with phase := fun j => if j = i then .idle else st.phase j, log := e :: st.log }

end Process

variable (dir x) in
/-- The next call of a thread that is in the middle of a save or a load. -/
def nextCall (st : Process V) (i : Nat) : Process V :=
  match st.phase i with
  | .idle => st
  | .wrote v =>
      if st.files.present (dataFile dir x) then st.enter i (.found v)
      else st.enter i (.publishing v false)
  | .found v =>
      match st.files.replace (dataFile dir x) (bakFile dir x) with
      | .ok files => { st with files := files }.enter i (.publishing v true)
      | .error e => st.finish i (.saveRaised e)
  | .publishing v _ =>
      match st.files.replace (tmpFile dir x) (dataFile dir x) with
      | .ok files =>
          { st with files := files, completed := v :: st.completed }.finish i (.saved v)
      | .error e => st.finish i (.saveRaised e)
  | .opening before =>
      match st.files.read (dataFile dir x) with
      | .ok (.json v) => st.finish i (.loaded v)
      | .ok .corrupt => st.finish i (.nothing before)
      | .error e => st.finish i (.loadRaised e)

variable (dir x) in
/-- One call of one thread, or a crash. A thread begins only when it is idle. -/
def fileStep (st : Process V) : FileCall V → Process V
  | .save i v =>
      match st.phase i with
      | .idle =>
          match st.files.write (tmpFile dir x) (.json v) with
          | .ok files => { st with files := files }.enter i (.wrote v)
          | .error e => st.finish i (.saveRaised e)
      | _ => st
  | .load i =>
      match st.phase i with
      | .idle =>
          if st.files.present (dataFile dir x) then st.enter i (.opening st.completed)
          else st.finish i (.nothing st.completed)
      | _ => st
  | .next i => nextCall dir x st i
  | .crash => { st with phase := fun _ => .idle }

/-- What an event may be: a load returns a value whose save has completed, or
nothing when no save had completed before it began; nothing raises. -/
def Event.Good (completed : List V) : Event V → Prop
  | .saved _ => True
  | .saveRaised _ => False
  | .loaded v => v ∈ completed
  | .nothing before => before = []
  | .loadRaised _ => False

def Atomic (st : Process V) : Prop :=
  ∀ e ∈ st.log, e.Good st.completed

/-- The save a thread is in the middle of. -/
def Phase.pending : Phase V → Option V
  | .wrote v => some v
  | .found v => some v
  | .publishing v _ => some v
  | _ => none

def NoSave (st : Process V) : Prop :=
  ∀ i, (st.phase i).pending = none

/-- Some save has moved the document away and not yet put the new one in place. -/
def Displacing (st : Process V) : Prop :=
  ∃ i v, st.phase i = .publishing v true

/-- A save begins while no save is in progress, and a load makes its calls, or
the process crashes, while no document is displaced. -/
def Undisturbed (st : Process V) : FileCall V → Prop
  | .save i _ => st.phase i = .idle → NoSave st
  | .load i => st.phase i = .idle → ¬ Displacing st
  | .next i => (∃ before, st.phase i = .opening before) → ¬ Displacing st
  | .crash => ¬ Displacing st

/-- The files of a directory just made. -/
def emptyDirectory (dir : Path) : Files V :=
  dir.inits.foldl FileTree.ensureDir .empty

def startProcess (dir : Path) : Process V where
  files := emptyDirectory dir
  phase := fun _ => .idle
  completed := []
  log := []

section Desk

/-- The directory is there and none of the names a save uses is a directory. -/
structure Desk (t : Files V) (dir : Path) (x : Text) : Prop where
  grounded : t.Grounded
  home : t.node? dir = some .dir
  data : t.node? (dataFile dir x) ≠ some .dir
  tmp : t.node? (tmpFile dir x) ≠ some .dir
  bak : t.node? (bakFile dir x) ≠ some .dir

variable {t : Files V} {c : Doc V}

theorem Desk.write (h : Desk t dir x) (c : Doc V) :
    ∃ u, t.write (tmpFile dir x) c = .ok u ∧ Desk u dir x ∧
      u.node? (tmpFile dir x) = some (.file c) ∧
      u.node? (dataFile dir x) = t.node? (dataFile dir x) := by
  have hparent : t.node? (tmpFile dir x).dropLast = some .dir := by
    rw [tmpFile, List.dropLast_concat, h.home]
  obtain ⟨u, hu, hg, hn⟩ := FileTree.write_spec (c := c) h.grounded hparent h.tmp
  have hdir : dir ≠ tmpFile dir x := dir_ne_sibling
  refine ⟨u, hu, ⟨hg, ?_, ?_, ?_, ?_⟩, ?_, ?_⟩
  · rw [hn, if_neg hdir, h.home]
  · rw [hn, if_neg tmpFile_ne_dataFile.symm]
    exact h.data
  · rw [hn, if_pos rfl]
    intro heq
    cases heq
  · rw [hn, if_neg bakFile_ne_tmpFile]
    exact h.bak
  · rw [hn, if_pos rfl]
  · rw [hn, if_neg tmpFile_ne_dataFile.symm]

theorem Desk.displace (h : Desk t dir x) (hc : t.node? (dataFile dir x) = some (.file c)) :
    ∃ u, t.replace (dataFile dir x) (bakFile dir x) = .ok u ∧ Desk u dir x ∧
      u.node? (dataFile dir x) = none ∧
      u.node? (tmpFile dir x) = t.node? (tmpFile dir x) := by
  have hparent : t.node? (bakFile dir x).dropLast = some .dir := by
    rw [bakFile, List.dropLast_concat, h.home]
  obtain ⟨u, hu, hg, hn⟩ :=
    FileTree.replace_spec (dataFile dir x) (bakFile dir x) h.grounded hc h.bak hparent
  have hdir : dir ≠ dataFile dir x := dir_ne_sibling
  have hdir' : dir ≠ bakFile dir x := dir_ne_sibling
  refine ⟨u, hu, ⟨hg, ?_, ?_, ?_, ?_⟩, ?_, ?_⟩
  · rw [hn, if_neg hdir', if_neg hdir, h.home]
  · rw [hn, if_neg bakFile_ne_dataFile.symm, if_pos rfl]
    intro heq
    cases heq
  · rw [hn, if_neg bakFile_ne_tmpFile.symm, if_neg tmpFile_ne_dataFile]
    exact h.tmp
  · rw [hn, if_pos rfl]
    intro heq
    cases heq
  · rw [hn, if_neg bakFile_ne_dataFile.symm, if_pos rfl]
  · rw [hn, if_neg bakFile_ne_tmpFile.symm, if_neg tmpFile_ne_dataFile]

theorem Desk.publish (h : Desk t dir x) (hc : t.node? (tmpFile dir x) = some (.file c)) :
    ∃ u, t.replace (tmpFile dir x) (dataFile dir x) = .ok u ∧ Desk u dir x ∧
      u.node? (dataFile dir x) = some (.file c) ∧ u.node? (tmpFile dir x) = none := by
  have hparent : t.node? (dataFile dir x).dropLast = some .dir := by
    rw [dataFile, List.dropLast_concat, h.home]
  obtain ⟨u, hu, hg, hn⟩ :=
    FileTree.replace_spec (tmpFile dir x) (dataFile dir x) h.grounded hc h.data hparent
  have hdir : dir ≠ dataFile dir x := dir_ne_sibling
  have hdir' : dir ≠ tmpFile dir x := dir_ne_sibling
  refine ⟨u, hu, ⟨hg, ?_, ?_, ?_, ?_⟩, ?_, ?_⟩
  · rw [hn, if_neg hdir, if_neg hdir', h.home]
  · rw [hn, if_pos rfl]
    intro heq
    cases heq
  · rw [hn, if_neg tmpFile_ne_dataFile, if_pos rfl]
    intro heq
    cases heq
  · rw [hn, if_neg bakFile_ne_dataFile, if_neg bakFile_ne_tmpFile]
    exact h.bak
  · rw [hn, if_pos rfl]
  · rw [hn, if_neg tmpFile_ne_dataFile, if_pos rfl]

end Desk

variable (dir x) in
/-- What a phase says about the files and the completed saves. -/
def PhaseOk (files : Files V) (completed : List V) : Phase V → Prop
  | .idle => True
  | .wrote v => files.node? (tmpFile dir x) = some (.file (.json v))
  | .found v => files.node? (tmpFile dir x) = some (.file (.json v)) ∧ completed ≠ []
  | .publishing v false => files.node? (tmpFile dir x) = some (.file (.json v))
  | .publishing v true => files.node? (tmpFile dir x) = some (.file (.json v)) ∧
      completed ≠ [] ∧ files.node? (dataFile dir x) = none
  | .opening _ => completed ≠ []

variable (dir x) in
/-- The document is one that was completely saved, or there never was one. -/
def Settled (files : Files V) (completed : List V) : Prop :=
  (completed = [] ∧ files.node? (dataFile dir x) = none) ∨
    ∃ v ∈ completed, files.node? (dataFile dir x) = some (.file (.json v))

/-- What undisturbed steps preserve. -/
structure Consistent (dir : Path) (x : Text) (st : Process V) : Prop where
  desk : Desk st.files dir x
  alone : ∀ i j, (st.phase i).pending ≠ none → (st.phase j).pending ≠ none → i = j
  phases : ∀ i, PhaseOk dir x st.files st.completed (st.phase i)
  settled : ¬ Displacing st → Settled dir x st.files st.completed
  atomic : Atomic st

section Preservation
variable {st st' : Process V} {i : Nat} {p : Phase V}

theorem Event.Good.mono {completed completed' : List V} (h : ∀ v ∈ completed, v ∈ completed')
    {e : Event V} (he : e.Good completed) : e.Good completed' := by
  cases e with
  | loaded v => exact h v he
  | saved v => exact he
  | saveRaised e => exact he
  | nothing before => exact he
  | loadRaised e => exact he

theorem PhaseOk.quiet {files files' : Files V} {completed completed' : List V}
    (h : PhaseOk dir x files completed p) (hp : p.pending = none)
    (hmono : completed ≠ [] → completed' ≠ []) : PhaseOk dir x files' completed' p := by
  cases p with
  | idle => trivial
  | opening before => exact hmono h
  | wrote v => cases hp
  | found v => cases hp
  | publishing v displaced => cases hp

theorem not_displaced_of_pending_none (h : p.pending = none) (v : V) :
    p ≠ .publishing v true := by
  intro hp
  rw [hp] at h
  cases h

theorem Consistent.saving (h : Consistent dir x st)
    (hothers : ∀ j, j ≠ i → (st.phase j).pending = none)
    (hphase : ∀ j, st'.phase j = if j = i then p else st.phase j)
    (hdesk : Desk st'.files dir x) (hok : PhaseOk dir x st'.files st'.completed p)
    (hmono : st.completed ≠ [] → st'.completed ≠ [])
    (hsettled : (∀ v, p ≠ .publishing v true) → Settled dir x st'.files st'.completed)
    (hatomic : Atomic st') : Consistent dir x st' := by
  have hother : ∀ j, j ≠ i → st'.phase j = st.phase j := by
    intro j hj
    rw [hphase, if_neg hj]
  have hself : st'.phase i = p := by rw [hphase, if_pos rfl]
  have honly : ∀ j, (st'.phase j).pending ≠ none → j = i := by
    intro j hj
    by_cases hji : j = i
    · exact hji
    · rw [hother j hji] at hj
      exact absurd (hothers j hji) hj
  refine ⟨hdesk, ?_, ?_, ?_, hatomic⟩
  · intro j k hj hk
    rw [honly j hj, honly k hk]
  · intro j
    by_cases hji : j = i
    · rw [hji, hself]
      exact hok
    · rw [hother j hji]
      exact (h.phases j).quiet (hothers j hji) hmono
  · intro hd
    exact hsettled fun v hv => hd ⟨i, v, hself.trans hv⟩

theorem Consistent.loading (h : Consistent dir x st) (hold : (st.phase i).pending = none)
    (hphase : ∀ j, st'.phase j = if j = i then p else st.phase j)
    (hfiles : st'.files = st.files) (hcompleted : st'.completed = st.completed)
    (hp : p.pending = none) (hok : PhaseOk dir x st.files st.completed p)
    (hatomic : Atomic st') : Consistent dir x st' := by
  have hother : ∀ j, j ≠ i → st'.phase j = st.phase j := by
    intro j hj
    rw [hphase, if_neg hj]
  have hself : st'.phase i = p := by rw [hphase, if_pos rfl]
  have hpending : ∀ j, (st'.phase j).pending = (st.phase j).pending := by
    intro j
    by_cases hji : j = i
    · rw [hji, hself, hp, hold]
    · rw [hother j hji]
  refine ⟨by rw [hfiles]; exact h.desk, ?_, ?_, ?_, hatomic⟩
  · intro j k hj hk
    rw [hpending] at hj hk
    exact h.alone j k hj hk
  · intro j
    rw [hfiles, hcompleted]
    by_cases hji : j = i
    · rw [hji, hself]
      exact hok
    · rw [hother j hji]
      exact h.phases j
  · intro hd
    rw [hfiles, hcompleted]
    apply h.settled
    intro hd'
    obtain ⟨j, v, hj⟩ := hd'
    have hji : j ≠ i := by
      intro hji
      rw [hji] at hj
      exact not_displaced_of_pending_none hold v hj
    exact hd ⟨j, v, (hother j hji).trans hj⟩

theorem Consistent.others (h : Consistent dir x st) (hi : (st.phase i).pending ≠ none) :
    ∀ j, j ≠ i → (st.phase j).pending = none := by
  intro j hj
  cases hp : (st.phase j).pending with
  | none => rfl
  | some v => exact absurd (h.alone j i (by rw [hp]; exact Option.some_ne_none _) hi) hj

theorem Consistent.not_displacing (h : Consistent dir x st) (hi : (st.phase i).pending ≠ none)
    (hp : ∀ v, st.phase i ≠ .publishing v true) : ¬ Displacing st := by
  intro hd
  obtain ⟨j, v, hj⟩ := hd
  have hji : j = i := h.alone j i (by rw [hj]; exact Option.some_ne_none _) hi
  rw [hji] at hj
  exact hp v hj

theorem Atomic.cons {e : Event V} {completed : List V} (h : ∀ e ∈ st.log, e.Good completed)
    (he : e.Good completed) : ∀ e' ∈ e :: st.log, e'.Good completed := by
  intro e' he'
  cases List.mem_cons.mp he' with
  | inl heq => rw [heq]; exact he
  | inr hmem => exact h e' hmem

theorem Consistent.nextCall (h : Consistent dir x st)
    (hG : Undisturbed st (.next i)) : Consistent dir x (nextCall dir x st i) := by
  have hok := h.phases i
  rw [Storage.nextCall]
  cases hphase : st.phase i with
  | idle => exact h
  | wrote v =>
      rw [hphase] at hok
      have hi : (st.phase i).pending ≠ none := by rw [hphase]; exact Option.some_ne_none _
      have hnd := h.not_displacing hi fun w => by rw [hphase]; intro heq; cases heq
      have hsettled := h.settled hnd
      by_cases hpres : st.files.present (dataFile dir x) = true
      · simp only [if_pos hpres]
        have hne : st.completed ≠ [] := by
          intro hnil
          cases hsettled with
          | inl hs => rw [FileTree.present, hs.2] at hpres; cases hpres
          | inr hs =>
              obtain ⟨w, hw, -⟩ := hs
              rw [hnil] at hw
              cases hw
        exact h.saving (h.others hi) (fun _ => rfl) h.desk ⟨hok, hne⟩ id
          (fun _ => hsettled) h.atomic
      · simp only [if_neg hpres]
        exact h.saving (h.others hi) (fun _ => rfl) h.desk hok id (fun _ => hsettled) h.atomic
  | found v =>
      rw [hphase] at hok
      have hi : (st.phase i).pending ≠ none := by rw [hphase]; exact Option.some_ne_none _
      have hnd := h.not_displacing hi fun w => by rw [hphase]; intro heq; cases heq
      cases h.settled hnd with
      | inl hs => exact absurd hs.1 hok.2
      | inr hs =>
          obtain ⟨w, -, hw⟩ := hs
          obtain ⟨u, hu, hdesk, hdata, htmp⟩ := h.desk.displace hw
          simp only [hu]
          exact h.saving (h.others hi) (fun _ => rfl) hdesk
            ⟨htmp.trans hok.1, hok.2, hdata⟩ id (fun hp => absurd rfl (hp v)) h.atomic
  | publishing v displaced =>
      have htmp : st.files.node? (tmpFile dir x) = some (.file (.json v)) := by
        rw [hphase] at hok
        cases displaced with
        | true => exact hok.1
        | false => exact hok
      have hi : (st.phase i).pending ≠ none := by rw [hphase]; exact Option.some_ne_none _
      obtain ⟨u, hu, hdesk, hdata, -⟩ := h.desk.publish htmp
      simp only [hu]
      refine h.saving (h.others hi) (fun _ => rfl) hdesk trivial
        (fun _ => List.cons_ne_nil _ _) (fun _ => .inr ⟨v, List.mem_cons_self, hdata⟩) ?_
      exact Atomic.cons (fun e he => (h.atomic e he).mono fun w hw => List.mem_cons_of_mem v hw)
        trivial
  | opening before =>
      rw [hphase] at hok
      have hi : (st.phase i).pending = none := by rw [hphase]; rfl
      cases h.settled (hG ⟨before, hphase⟩) with
      | inl hs => exact absurd hs.1 hok
      | inr hs =>
          obtain ⟨w, hw, hdata⟩ := hs
          have hread : st.files.read (dataFile dir x) = .ok (.json w) := by
            rw [FileTree.read, hdata]
          simp only [hread]
          exact h.loading hi (fun _ => rfl) rfl rfl rfl trivial (Atomic.cons h.atomic hw)

theorem Consistent.step (h : Consistent dir x st) (a : FileCall V) (hG : Undisturbed st a) :
    Consistent dir x (fileStep dir x st a) := by
  cases a with
  | save i v =>
      rw [fileStep]
      cases hphase : st.phase i with
      | idle =>
          have hnone := hG hphase
          have hnd : ¬ Displacing st := by
            intro hd
            obtain ⟨j, w, hj⟩ := hd
            exact not_displaced_of_pending_none (hnone j) w hj
          obtain ⟨u, hu, hdesk, htmp, hdata⟩ := h.desk.write (.json v)
          simp only [hu]
          refine h.saving (fun j _ => hnone j) (fun _ => rfl) hdesk htmp id (fun _ => ?_) h.atomic
          show Settled dir x u st.completed
          rw [Settled, hdata]
          exact h.settled hnd
      | wrote w => exact h
      | found w => exact h
      | publishing w displaced => exact h
      | opening before => exact h
  | load i =>
      rw [fileStep]
      cases hphase : st.phase i with
      | idle =>
          have hi : (st.phase i).pending = none := by rw [hphase]; rfl
          cases h.settled (hG hphase) with
          | inl hs =>
              have habsent : ¬ st.files.present (dataFile dir x) = true := by
                rw [FileTree.present, hs.2]
                exact Bool.false_ne_true
              simp only [if_neg habsent]
              exact h.loading hi (fun _ => rfl) rfl rfl rfl trivial (Atomic.cons h.atomic hs.1)
          | inr hs =>
              obtain ⟨w, hw, hdata⟩ := hs
              simp only [if_pos (present_of_file hdata)]
              exact h.loading hi (fun _ => rfl) rfl rfl rfl (List.ne_nil_of_mem hw) h.atomic
      | wrote w => exact h
      | found w => exact h
      | publishing w displaced => exact h
      | opening before => exact h
  | next i => exact h.nextCall hG
  | crash =>
      refine ⟨h.desk, ?_, fun _ => trivial, fun _ => h.settled hG, h.atomic⟩
      intro j k hj
      exact absurd rfl hj

end Preservation

theorem mkdirs_empty (dir : Path) :
    FileTree.mkdirs (.empty : Files V) dir = .ok (emptyDirectory dir) := by
  have hfile : ∀ q : Path, FileTree.isFile (.empty : Files V) q = false := by
    intro q
    cases q with
    | nil => rfl
    | cons y q => rfl
  rw [FileTree.mkdirs, hfile, if_neg Bool.false_ne_true, if_neg]
  · rfl
  · intro hany
    obtain ⟨q, -, hq⟩ := List.any_eq_true.mp hany
    rw [hfile q] at hq
    cases hq

theorem consistent_startProcess : Consistent dir x (startProcess dir : Process V) := by
  have hw : Writable (.empty : Files V) dir x := writable_empty
  obtain ⟨u, hu, hg, hn⟩ := FileTree.mkdirs_spec hw.grounded hw.free
  have hfiles : u = emptyDirectory dir := Except.ok.inj (hu.symm.trans (mkdirs_empty dir))
  rw [hfiles] at hg hn
  have hnone : ∀ n : Text, FileTree.node? (emptyDirectory dir : Files V) (dir ++ [n]) = none := by
    intro n
    rw [hn, if_neg (sibling_not_above n),
      FileTree.node?_of_ne_nil (List.append_ne_nil_of_right_ne_nil _ (List.cons_ne_nil _ _))]
    rfl
  have hdir : ∀ n : Text,
      FileTree.node? (emptyDirectory dir : Files V) (dir ++ [n]) ≠ some .dir := by
    intro n
    rw [hnone]
    intro heq
    cases heq
  refine ⟨⟨hg, ?_, hdir _, hdir _, hdir _⟩, fun i j hi => absurd rfl hi, fun _ => trivial,
    fun _ => .inl ⟨rfl, hnone _⟩, fun e he => absurd he List.not_mem_nil⟩
  show FileTree.node? (emptyDirectory dir : Files V) dir = some .dir
  rw [hn, if_pos (List.prefix_refl dir)]

section Disturbance
variable {st : Process V} {i j : Nat} {c : Doc V} {v w : V}

variable (dir x) in
/-- Some continuation makes a save raise, a load raise, or a load return what it must not. -/
def CanBreak (st : Process V) : Prop :=
  ∃ rest, ¬ Atomic (exec (fileStep dir x) st rest)

theorem CanBreak.before (a : FileCall V) (h : CanBreak dir x (fileStep dir x st a)) :
    CanBreak dir x st := by
  obtain ⟨rest, hrest⟩ := h
  exact ⟨a :: rest, hrest⟩

theorem canBreak_of_event {e : Event V} (he : e ∈ st.log) (hbad : ¬ e.Good st.completed) :
    CanBreak dir x st :=
  ⟨[], fun h => hbad (h e he)⟩

theorem canBreak_publishing {d : Bool} (hi : st.phase i = .publishing v d)
    (htmp : st.files.node? (tmpFile dir x) = none) : CanBreak dir x st := by
  have hmissing : st.files.replace (tmpFile dir x) (dataFile dir x) = .error .notFound := by
    rw [FileTree.replace, htmp]
  have hstep : fileStep dir x st (.next i) = st.finish i (.saveRaised .notFound) := by
    rw [fileStep, nextCall, hi]
    simp only [hmissing]
  apply CanBreak.before (.next i)
  rw [hstep]
  exact canBreak_of_event List.mem_cons_self id

theorem canBreak_found (hdesk : Desk st.files dir x) (hi : st.phase i = .found v)
    (hdata : st.files.node? (dataFile dir x) = some (.file c))
    (htmp : st.files.node? (tmpFile dir x) = none) : CanBreak dir x st := by
  obtain ⟨u, hu, -, -, htmp'⟩ := hdesk.displace hdata
  have hstep : fileStep dir x st (.next i) =
      Process.enter { st with files := u } i (.publishing v true) := by
    rw [fileStep, nextCall, hi]
    simp only [hu]
  apply CanBreak.before (.next i)
  rw [hstep]
  exact canBreak_publishing (if_pos rfl) (htmp'.trans htmp)

theorem canBreak_wrote (hdesk : Desk st.files dir x) (hi : st.phase i = .wrote v)
    (hdata : st.files.node? (dataFile dir x) = some (.file c))
    (htmp : st.files.node? (tmpFile dir x) = none) : CanBreak dir x st := by
  have hstep : fileStep dir x st (.next i) = st.enter i (.found v) := by
    rw [fileStep, nextCall, hi]
    simp only [if_pos (present_of_file hdata)]
  apply CanBreak.before (.next i)
  rw [hstep]
  exact canBreak_found hdesk (if_pos rfl) hdata htmp

theorem canBreak_race_publishing {d : Bool} (hdesk : Desk st.files dir x) (hij : i ≠ j)
    (htmp : st.files.node? (tmpFile dir x) = some (.file c)) (hi : st.phase i = .wrote v)
    (hj : st.phase j = .publishing w d) : CanBreak dir x st := by
  obtain ⟨u, hu, hdesk', hdata, htmp'⟩ := hdesk.publish htmp
  have hstep : fileStep dir x st (.next j) =
      Process.finish { st with files := u, completed := w :: st.completed } j (.saved w) := by
    rw [fileStep, nextCall, hj]
    simp only [hu]
  apply CanBreak.before (.next j)
  rw [hstep]
  exact canBreak_wrote hdesk' ((if_neg hij).trans hi) hdata htmp'

theorem canBreak_race_found (hdesk : Desk st.files dir x) (hij : i ≠ j) {c' : Doc V}
    (hdata : st.files.node? (dataFile dir x) = some (.file c'))
    (htmp : st.files.node? (tmpFile dir x) = some (.file c)) (hi : st.phase i = .wrote v)
    (hj : st.phase j = .found w) : CanBreak dir x st := by
  obtain ⟨u, hu, hdesk', -, htmp'⟩ := hdesk.displace hdata
  have hstep : fileStep dir x st (.next j) =
      Process.enter { st with files := u } j (.publishing w true) := by
    rw [fileStep, nextCall, hj]
    simp only [hu]
  apply CanBreak.before (.next j)
  rw [hstep]
  exact canBreak_race_publishing hdesk' hij (htmp'.trans htmp) ((if_neg hij).trans hi)
    (if_pos rfl)

theorem canBreak_race_wrote (hdesk : Desk st.files dir x) (hij : i ≠ j)
    (htmp : st.files.node? (tmpFile dir x) = some (.file c)) (hi : st.phase i = .wrote v)
    (hj : st.phase j = .wrote w) : CanBreak dir x st := by
  apply CanBreak.before (.next j)
  rw [fileStep, nextCall, hj]
  by_cases hpres : st.files.present (dataFile dir x) = true
  · obtain ⟨c', hc'⟩ := file_of_present hpres hdesk.data
    simp only [if_pos hpres]
    exact canBreak_race_found hdesk hij hc' htmp ((if_neg hij).trans hi) (if_pos rfl)
  · simp only [if_neg hpres]
    exact canBreak_race_publishing hdesk hij htmp ((if_neg hij).trans hi) (if_pos rfl)

theorem Consistent.displacing (h : Consistent dir x st) (hd : Displacing st) :
    st.completed ≠ [] ∧ st.files.node? (dataFile dir x) = none := by
  obtain ⟨j, w, hj⟩ := hd
  have hok := h.phases j
  rw [hj] at hok
  exact hok.2

theorem canBreak_load (hi : st.phase i = .idle) (hcompleted : st.completed ≠ [])
    (hdata : st.files.node? (dataFile dir x) = none) :
    CanBreak dir x (fileStep dir x st (.load i)) := by
  have habsent : ¬ st.files.present (dataFile dir x) = true := by
    rw [FileTree.present, hdata]
    exact Bool.false_ne_true
  have hstep : fileStep dir x st (.load i) = st.finish i (.nothing st.completed) := by
    rw [fileStep, hi]
    simp only [if_neg habsent]
  rw [hstep]
  exact canBreak_of_event List.mem_cons_self hcompleted

theorem Consistent.canBreak (h : Consistent dir x st) {a : FileCall V}
    (ha : ¬ Undisturbed st a) : CanBreak dir x (fileStep dir x st a) := by
  cases a with
  | save i v =>
      obtain ⟨hidle, hsave⟩ := Classical.not_imp.mp ha
      obtain ⟨j, hj⟩ := Classical.not_forall.mp hsave
      have hij : i ≠ j := by
        intro hij
        rw [← hij, hidle] at hj
        exact hj rfl
      obtain ⟨u, hu, hdesk, htmp, hdata⟩ := h.desk.write (.json v)
      have hstep : fileStep dir x st (.save i v) =
          Process.enter { st with files := u } i (.wrote v) := by
        rw [fileStep, hidle]
        simp only [hu]
      have hother : ∀ p, st.phase j = p →
          (Process.enter { st with files := u } i (.wrote v)).phase j = p :=
        fun p hp => (if_neg hij.symm).trans hp
      rw [hstep]
      cases hphase : st.phase j with
      | idle => rw [hphase] at hj; exact absurd rfl hj
      | opening before => rw [hphase] at hj; exact absurd rfl hj
      | wrote w => exact canBreak_race_wrote hdesk hij htmp (if_pos rfl) (hother _ hphase)
      | publishing w d =>
          exact canBreak_race_publishing hdesk hij htmp (if_pos rfl) (hother _ hphase)
      | found w =>
          have hok := h.phases j
          rw [hphase] at hok
          have hnd := h.not_displacing hj fun w' => by
            rw [hphase]
            intro heq
            cases heq
          cases h.settled hnd with
          | inl hs => exact absurd hs.1 hok.2
          | inr hs =>
              obtain ⟨w', -, hw'⟩ := hs
              exact canBreak_race_found hdesk hij (hdata.trans hw') htmp (if_pos rfl)
                (hother _ hphase)
  | load i =>
      obtain ⟨hidle, hd⟩ := Classical.not_imp.mp ha
      have hdisplacing := h.displacing (Classical.not_not.mp hd)
      exact canBreak_load hidle hdisplacing.1 hdisplacing.2
  | next i =>
      obtain ⟨hopening, hd⟩ := Classical.not_imp.mp ha
      obtain ⟨before, hi⟩ := hopening
      have hdisplacing := h.displacing (Classical.not_not.mp hd)
      have hread : st.files.read (dataFile dir x) = .error .notFound := by
        rw [FileTree.read, hdisplacing.2]
      have hstep : fileStep dir x st (.next i) = st.finish i (.loadRaised .notFound) := by
        rw [fileStep, Storage.nextCall, hi]
        simp only [hread]
      rw [hstep]
      exact canBreak_of_event List.mem_cons_self id
  | crash =>
      have hdisplacing := h.displacing (Classical.not_not.mp ha)
      apply CanBreak.before (.load 0)
      exact canBreak_load rfl hdisplacing.1 hdisplacing.2

end Disturbance

/-- In every undisturbed run, no save raises and every load returns a value that
was completely saved, or nothing when there was none before it began; and from
every state of such a run, whatever disturbs it can be continued to a failure. -/
theorem atomic_of_undisturbed (dir : Path) (x : Text) (run : List (FileCall V))
    (h : AllSteps (fileStep dir x) Undisturbed (startProcess dir) run) :
    Always (fileStep dir x) Atomic (startProcess dir) run ∧
      ∀ a, ¬ Undisturbed (exec (fileStep dir x) (startProcess dir) run) a →
        ∃ rest, ¬ Always (fileStep dir x) Atomic (startProcess dir) (run ++ a :: rest) := by
  have hconsistent := always_of_allSteps (P := Consistent dir x)
    (fun _ a hs hG => hs.step a hG) consistent_startProcess h
  refine ⟨hconsistent.mono fun _ hs => hs.atomic, ?_⟩
  intro a ha
  obtain ⟨rest, hrest⟩ := hconsistent.last.canBreak ha
  refine ⟨rest, fun halways => hrest ?_⟩
  have hlast := halways.last
  rw [exec, List.foldl_append, List.foldl_cons] at hlast
  exact hlast

/-- A save that nothing interrupts makes the calls `atomicWrite` makes, whether
or not one of them raises. -/
theorem save_alone (hx : x ≠ []) (st : JsonStore V F) {t : Files V}
    (hmk : st.files.mkdirs dir = .ok t) (v : V) (pr : Process V) (hfiles : pr.files = t)
    (hidle : pr.phase 0 = .idle) :
    (final (atomicWrite (dataFile dir x) v st)).files =
      (exec (fileStep dir x) pr [.save 0 v, .next 0, .next 0, .next 0]).files := by
  have hmk' : st.files.mkdirs (dataFile dir x).dropLast = .ok t := by
    rw [dataFile, List.dropLast_concat, hmk]
  rw [atomicWrite, bind_ok (change_ok hmk'), withSuffix_tmp hx, withSuffix_bak hx]
  simp only [exec_cons, exec_nil, fileStep, hidle, hfiles]
  cases hw : t.write (tmpFile dir x) (.json v) with
  | error e =>
      rw [bind_error (change_error hw)]
      simp [nextCall, Process.finish, final, hfiles]
  | ok t2 =>
      rw [bind_ok (change_ok hw), inspect_bind]
      by_cases hpres : t2.present (dataFile dir x) = true
      · rw [if_pos hpres]
        cases hd : t2.replace (dataFile dir x) (bakFile dir x) with
        | error e =>
            rw [bind_error (change_error hd)]
            simp [nextCall, Process.enter, Process.finish, final, hpres, hd]
        | ok t3 =>
            rw [bind_ok (change_ok hd)]
            cases hp : t3.replace (tmpFile dir x) (dataFile dir x) with
            | error e =>
                rw [change_error hp]
                simp [nextCall, Process.enter, Process.finish, final, hpres, hd, hp]
            | ok t4 =>
                rw [change_ok hp]
                simp [nextCall, Process.enter, Process.finish, final, hpres, hd, hp]
      · rw [if_neg hpres]
        cases hp : t2.replace (tmpFile dir x) (dataFile dir x) with
        | error e =>
            rw [change_error hp]
            simp [nextCall, Process.enter, Process.finish, final, hpres, hp]
        | ok t4 =>
            rw [change_ok hp]
            simp [nextCall, Process.enter, Process.finish, final, hpres, hp]

section Samples

def patternsDir : Path := [['p']]
def documentName : Text := ['x']

/-- One save completes, the next one is cut off between its two moves. -/
def cutOffRun : List (FileCall Nat) :=
  [.save 0 1, .next 0, .next 0, .save 0 2, .next 0, .next 0, .crash, .load 1]

/-- Two saves write the temporary file before either has moved it. -/
def overlappingRun : List (FileCall Nat) :=
  [.save 0 1, .save 1 2, .next 0, .next 0, .next 1, .next 1, .next 1]

theorem interrupted_saves_not_atomic :
    ¬ Always (fileStep patternsDir documentName) Atomic (startProcess patternsDir) cutOffRun ∧
      ¬ Always (fileStep patternsDir documentName) Atomic (startProcess patternsDir)
        overlappingRun := by
  have hcut : (exec (fileStep patternsDir documentName) (startProcess patternsDir) cutOffRun).log =
      [.nothing [1], .saved 1] := by decide
  have hoverlap : (exec (fileStep patternsDir documentName) (startProcess patternsDir)
      overlappingRun).log = [.saveRaised .notFound, .saved 1] := by decide
  constructor
  · intro h
    have hgood := h.last (.nothing [1]) (by rw [hcut]; exact List.mem_cons_self)
    cases hgood
  · intro h
    exact h.last (.saveRaised .notFound) (by rw [hoverlap]; exact List.mem_cons_self)

theorem not_displacing_of_two {st : Process Nat} (hfirst : ∀ v, st.phase 0 ≠ .publishing v true)
    (hsecond : ∀ v, st.phase 1 ≠ .publishing v true) (hrest : ∀ i, st.phase (i + 2) = .idle) :
    ¬ Displacing st := by
  intro h
  obtain ⟨i, v, hi⟩ := h
  match i with
  | 0 => exact hfirst v hi
  | 1 => exact hsecond v hi
  | i + 2 =>
      rw [hrest i] at hi
      cases hi

/-- Two threads take turns: each saves and each loads, and then the process crashes. -/
def turnsRun : List (FileCall Nat) :=
  [.save 0 1, .next 0, .next 0, .load 1, .next 1, .save 1 2, .next 1, .next 1, .next 1,
    .load 0, .next 0, .crash, .load 0, .next 0]

theorem turnsRun_undisturbed :
    AllSteps (fileStep patternsDir documentName) Undisturbed (startProcess patternsDir)
      turnsRun := by
  refine ⟨fun _ _ => rfl, ?_, ?_, fun _ => ?_, fun _ => ?_, fun _ => ?_, ?_, ?_, ?_, fun _ => ?_,
    fun _ => ?_, ?_, fun _ => ?_, fun _ => ?_, trivial⟩
  case refine_5 =>
    intro i
    match i with
    | 0 => rfl
    | 1 => rfl
    | i + 2 => rfl
  case refine_1 | refine_2 | refine_6 | refine_7 | refine_8 =>
    intro h
    obtain ⟨before, hbefore⟩ := h
    cases hbefore
  all_goals
    apply not_displacing_of_two
    · intro v h
      cases h
    · intro v h
      cases h
    · exact fun _ => rfl

theorem save_then_load_atomic :
    Always (fileStep patternsDir documentName) Atomic (startProcess patternsDir) turnsRun :=
  (atomic_of_undisturbed patternsDir documentName turnsRun turnsRun_undisturbed).1

end Samples

end Engramia.Storage
