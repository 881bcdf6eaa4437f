import Engramia.Library.Run
import Engramia.Patterns.EvalHistory
import Engramia.Patterns.Outcomes

/-!
What a deleted pattern leaves behind. Four stores of a scope know a pattern by its key: the
records, the embeddings, the evaluation history and the skill tags. A deletion reaches the
first two. Where the other two hold nothing of the key, a pattern that is later stored under
it starts as if the key were new.

Over files a key may lead to the document of another one, `patterns/a1.json` to that of
`patterns/a1`.
-/
namespace Engramia.Patterns
open Engramia.Library Engramia.Storage

structure MemoryStore (F : Type) where
  store : PatternStore F
  skills : OrderedDict Text (List Text)

/-- A call of the client under one scope. Aging, retention and the marking of reuse save and
delete records. -/
inductive MemoryOp (F : Type) where
  | learn (env : Env F) (c : LearnCall)
  | importData (env : Env F) (records : List (Text × Record)) (overwrite : Bool)
  | refinePattern (key : Text) (evalScore : ℚ) (task : Option Text) (feedback : Text) (now : ℚ)
  | evaluate (agentKey task : Text) (overall : ℚ) (feedback : Text) (now : ℚ)
  | registerSkills (key : Text) (skills : List Text)
  | deletePattern (key : Text)
  | saveRecord (key : Text) (r : Record)
  | deleteRecord (key : Text)

/-- The columns of a new row. -/
def noColumns : Columns := ⟨none, none, none, none, false⟩

variable {F : Type}

/-- The keys that an operation saves a document under. -/
def MemoryOp.savedKeys : MemoryOp F → List Text
  | .learn env _ => [patternKey env.stamp]
  | .importData _ records _ => (records.map Prod.fst).filter fun key => AcceptedKey key
  | .saveRecord key _ => [key]
  | _ => []

/-- The key that the document a key leads to is listed under. -/
def Backend.document (key : Text) : Backend → Text
  | .json => ((keyToPath [] key).map pathToKey).getD key
  | .postgres _ => key

section Operations
variable (svc : LearningService)

/-- `delete` of the storage: the row or file, and the vector. -/
def removeRecord (key : Text) (st : PatternStore F) : PatternStore F :=
  { st with
    patterns := st.patterns.discard (· = svc.backend.document key)
    columns := Function.update st.columns key noColumns
    embeddings := st.embeddings.discard (· = key) }

/-- `Memory.delete_pattern`; `none` where it raises. -/
def deletePattern (key : Text) (m : MemoryStore F) : Option (Bool × MemoryStore F) :=
  if AcceptedKey key then
    if (m.store.patterns.get? (svc.backend.document key)).isSome then
      some (true, { m with store := removeRecord svc key m.store })
    else some (false, m)
  else none

def appendEval (e : EvalRecord) (m : MemoryStore F) : MemoryStore F :=
  { m with store := { m.store with evals := storeEval m.store.evals e } }

/-- `Memory.refine_pattern`, which raises for an unknown key or a score out of range. -/
def refinePattern (key : Text) (evalScore : ℚ) (task : Option Text) (feedback : Text) (now : ℚ)
    (m : MemoryStore F) : MemoryStore F :=
  match m.store.patterns.get? (svc.backend.document key) with
  | none => m
  | some r =>
      if 0 ≤ evalScore ∧ evalScore ≤ 10 then
        appendEval ⟨key, task.getD (r.task.getD []), ⟨evalScore, feedback⟩, now⟩ m
      else m

variable (T : Core.FeedbackText)

/-- The vector of an imported record. An error of the provider or the storage is logged. -/
def reembed (env : Env F) (key : Text) (r : Record) (st : PatternStore F) : PatternStore F :=
  match env.embeddings, r.task.filter (· ≠ []) with
  | some provider, some task =>
      match provider task with
      | some embedding => final (saveEmbedding svc env key embedding st)
      | none => st
  | _, _ => st

def importRecord (env : Env F) (overwrite : Bool) (st : PatternStore F) (x : Text × Record) :
    PatternStore F :=
  let document := svc.backend.document x.1
  if ¬ AcceptedKey x.1 ∨ (!overwrite && (st.patterns.get? document).isSome) then st
  else reembed svc env x.1 x.2 { st with patterns := st.patterns.set document x.2 }

/-- `SkillRegistry.register` -/
def registerSkills (key : Text) (skills : List Text) (m : MemoryStore F) : MemoryStore F :=
  if skills = [] then m
  else
    let normalized := (skills.filter fun tag => Core.strip T tag ≠ []).map fun tag =>
      Core.strip T (T.lower tag)
    { m with skills := m.skills.set key normalized }

/-- `SkillRegistry.get_skills` -/
def getSkills (key : Text) (m : MemoryStore F) : List Text := (m.skills.get? key).getD []

def applyMemory (m : MemoryStore F) : MemoryOp F → MemoryStore F
  | .learn env c => { m with store := final (learn svc env c m.store) }
  | .importData env records overwrite =>
      { m with store := records.foldl (importRecord svc env overwrite) m.store }
  | .refinePattern key evalScore task feedback now =>
      refinePattern svc key evalScore task feedback now m
  | .evaluate agentKey task overall feedback now =>
      appendEval ⟨agentKey, task, ⟨overall, feedback⟩, now⟩ m
  | .registerSkills key skills => registerSkills T key skills m
  | .deletePattern key => ((deletePattern svc key m).map Prod.snd).getD m
  | .saveRecord key r =>
      let document := svc.backend.document key
      { m with store := { m.store with patterns := m.store.patterns.set document r } }
  | .deleteRecord key => { m with store := removeRecord svc key m.store }

def emptyMemory : MemoryStore F := ⟨emptyPatternStore, .empty⟩

end Operations

section Traces
variable (svc : LearningService) (T : Core.FeedbackText)

/-- Neither the evaluation history nor the skill tags know the key. -/
structure Unknown (key : Text) (m : MemoryStore F) : Prop where
  unrated : ∀ e ∈ m.store.evals, e.agentName ≠ key
  untagged : m.skills.get? key = none

structure Forgotten (key : Text) (m : MemoryStore F) : Prop extends Unknown key m where
  record : m.store.patterns.get? key = none
  columns : m.store.columns key = noColumns
  embedding : m.store.embeddings.get? key = none

/-- The records of the other keys are the same. -/
structure OthersKept (key : Text) (m m' : MemoryStore F) : Prop where
  record : ∀ k, k ≠ key → m'.store.patterns.get? k = m.store.patterns.get? k
  columns : ∀ k, k ≠ key → m'.store.columns k = m.store.columns k
  embedding : ∀ k, k ≠ key → m'.store.embeddings.get? k = m.store.embeddings.get? k
  evals : (m'.store.evals.filter fun e => e.agentName ≠ key) =
    m.store.evals.filter fun e => e.agentName ≠ key
  skills : ∀ k, k ≠ key → m'.skills.get? k = m.skills.get? k

/-- The operation records an evaluation or skill tags under the key. -/
def Credits (key : Text) (m : MemoryStore F) : MemoryOp F → Prop
  | .learn env c => writtenKey svc env c m.store.patterns = some key
  | .refinePattern k _ _ _ _ => k = key
  | .evaluate agentKey _ _ _ _ => agentKey = key
  | .registerSkills k _ => k = key
  | _ => False

/-- A pattern that is stored under the key has the neutral multiplier and no skills, and one
that is learned under it no evaluation but that of its learning. -/
structure StartsFresh (key : Text) (m : MemoryStore F) : Prop where
  multiplier : ∀ task, evalMultiplier T.toTextMethods key task m.store.evals = 3 / 4
  skills : getSkills key m = []
  learned : ∀ env c, writtenKey svc env c m.store.patterns = some key →
    ∀ e ∈ (final (learn svc env c m.store)).evals, e.agentName = key →
      e = evalRecord env c key

/-- Nothing of the key is kept, the rest is, and until an operation records something new for
the key a pattern that is stored under it starts fresh. -/
structure Forgets (key : Text) (m m' : MemoryStore F) : Prop where
  forgotten : Forgotten key m'
  others : OthersKept key m m'
  fresh : ∀ ops, AllSteps (applyMemory svc T) (fun m op => ¬ Credits svc key m op) m' ops →
    StartsFresh svc T key (exec (applyMemory svc T) m' ops)

end Traces

section Frames
variable {svc : LearningService} {T : Core.FeedbackText} {m m' : MemoryStore F} {key : Text}

theorem mem_storeEval {e e' : EvalRecord} {evals : List EvalRecord}
    (h : e ∈ storeEval evals e') : e ∈ evals ++ [e'] := List.mem_of_mem_drop h

theorem evals_saveEmbedding (env : Env F) (embedding : List F) (st : PatternStore F) :
    (final (saveEmbedding svc env key embedding st)).evals = st.evals := by
  have hput : Unseen PatternStore.evals (putEmbedding key embedding : LearnM F Unit) :=
    fun _ => rfl
  have hcall : Unseen PatternStore.evals (storageCall env .saveEmbedding) := by
    intro st
    cases hfails : env.fails .saveEmbedding with
    | true => rw [storageCall_error hfails]; rfl
    | false => rw [storageCall_ok hfails]; rfl
  rw [saveEmbedding_eq]
  by_cases hrefuses : refuses svc st.embeddings embedding = true
  · rw [if_pos hrefuses]
    rfl
  · rw [if_neg hrefuses]
    cases svc.backend with
    | json => exact Unseen.bind hput (fun _ => hcall) st
    | postgres dim => exact Unseen.bind hcall (fun _ => hput) st

theorem evals_importRecord (env : Env F) (overwrite : Bool) (st : PatternStore F)
    (x : Text × Record) : (importRecord svc env overwrite st x).evals = st.evals := by
  rw [importRecord]
  split
  · rfl
  · rw [reembed]
    split
    · split
      · exact evals_saveEmbedding _ _ _
      · rfl
    · rfl

theorem evals_importRecords (env : Env F) (overwrite : Bool) (records : List (Text × Record))
    (st : PatternStore F) :
    (records.foldl (importRecord svc env overwrite) st).evals = st.evals := by
  induction records generalizing st with
  | nil => rfl
  | cons x records ih => exact (ih _).trans (evals_importRecord env overwrite st x)

theorem mem_evals_learn {env : Env F} {c : LearnCall} {st : PatternStore F} {e : EvalRecord}
    (h : e ∈ (final (learn svc env c st)).evals) :
    e ∈ st.evals ∨ ∃ k, writtenKey svc env c st.patterns = some k ∧ e = evalRecord env c k := by
  cases hkey : writtenKey svc env c st.patterns with
  | none =>
      rw [(learn_of_not_written hkey).unchanged] at h
      exact .inl h
  | some k =>
      cases (learn_of_some hkey).evals with
      | inl heq => exact .inl (heq ▸ h)
      | inr heq =>
          rw [heq] at h
          cases List.mem_append.mp (mem_storeEval h) with
          | inl hmem => exact .inl hmem
          | inr hmem => exact .inr ⟨k, rfl, List.mem_singleton.mp hmem⟩

theorem skills_appendEval {e : EvalRecord} : (appendEval e m).skills = m.skills := by
  rw [appendEval]

theorem evals_appendEval {e : EvalRecord} :
    (appendEval e m).store.evals = storeEval m.store.evals e := by
  rw [appendEval]

theorem Unknown.appendEval (h : Unknown key m) {e : EvalRecord} (he : e.agentName ≠ key) :
    Unknown key (appendEval e m) := by
  constructor
  · intro e' he'
    rw [evals_appendEval] at he'
    cases List.mem_append.mp (mem_storeEval he') with
    | inl hmem => exact h.unrated e' hmem
    | inr hmem =>
        rw [List.mem_singleton.mp hmem]
        exact he
  · rw [skills_appendEval]
    exact h.untagged

theorem Unknown.deletePattern (h : Unknown key m) (k : Text) :
    Unknown key (((deletePattern svc k m).map Prod.snd).getD m) := by
  rw [Patterns.deletePattern]
  split
  · split
    · exact ⟨h.unrated, h.untagged⟩
    · exact h
  · exact h

theorem Unknown.step (h : Unknown key m) {op : MemoryOp F} (hop : ¬ Credits svc key m op) :
    Unknown key (applyMemory svc T m op) := by
  cases op with
  | learn env c =>
      refine ⟨?_, h.untagged⟩
      intro e he
      cases mem_evals_learn he with
      | inl hmem => exact h.unrated e hmem
      | inr hown =>
          obtain ⟨k, hkey, rfl⟩ := hown
          intro hk
          have hk' : k = key := hk
          exact hop (hk' ▸ hkey)
  | importData env records overwrite =>
      refine ⟨?_, h.untagged⟩
      intro e he
      exact h.unrated e (evals_importRecords env overwrite records m.store ▸ he)
  | refinePattern k evalScore task feedback now =>
      show Unknown key (refinePattern svc k evalScore task feedback now m)
      rw [refinePattern]
      split
      · exact h
      · split
        · exact h.appendEval hop
        · exact h
  | evaluate agentKey task overall feedback now => exact h.appendEval hop
  | registerSkills k skills =>
      show Unknown key (registerSkills T k skills m)
      rw [registerSkills]
      split
      · exact h
      · refine ⟨h.unrated, ?_⟩
        have hk : key ≠ k := fun heq => hop heq.symm
        exact (OrderedDict.get?_set key).trans ((if_neg hk).trans h.untagged)
  | deletePattern k => exact h.deletePattern k
  | saveRecord k r => exact ⟨h.unrated, h.untagged⟩
  | deleteRecord k => exact ⟨h.unrated, h.untagged⟩

theorem Unknown.startsFresh (h : Unknown key m) : StartsFresh svc T key m := by
  refine ⟨fun task => evalMultiplier_neutral h.unrated, ?_, ?_⟩
  · rw [getSkills, h.untagged]
    rfl
  · intro env c hkey e he hname
    cases mem_evals_learn he with
    | inl hmem => exact absurd hname (h.unrated e hmem)
    | inr hown =>
        obtain ⟨k, hk, heq⟩ := hown
        rw [hkey] at hk
        cases hk
        exact heq

theorem deletePattern_eq (h : deletePattern svc key m = some (true, m')) :
    (m.store.patterns.get? (svc.backend.document key)).isSome = true ∧
      m' = { m with store := removeRecord svc key m.store } := by
  rw [deletePattern] at h
  split at h
  · split at h
    next hfound =>
      cases h
      exact ⟨hfound, rfl⟩
    next => cases h
  · cases h

theorem get?_discard_self {β : Type} (d : OrderedDict Text β) :
    (d.discard (· = key)).get? key = none := by
  rw [OrderedDict.get?_discard, decide_eq_true rfl]
  rfl

theorem get?_discard_ne {β : Type} (d : OrderedDict Text β) {k : Text} (hk : k ≠ key) :
    (d.discard (· = key)).get? k = d.get? k := by
  rw [OrderedDict.get?_discard, decide_eq_false hk]
  rfl

theorem document_of_othersKept (h : deletePattern svc key m = some (true, m'))
    (hothers : OthersKept key m m') : svc.backend.document key = key := by
  obtain ⟨hfound, hm'⟩ := deletePattern_eq h
  by_contra hne
  have hrecord := hothers.record _ hne
  rw [hm'] at hrecord
  have hgone : (removeRecord svc key m.store).patterns.get? (svc.backend.document key) = none :=
    get?_discard_self _
  rw [hgone] at hrecord
  rw [← hrecord] at hfound
  cases hfound

theorem othersKept_deletePattern (h : deletePattern svc key m = some (true, m'))
    (hkey : svc.backend.document key = key) : OthersKept key m m' := by
  rw [(deletePattern_eq h).2, removeRecord, hkey]
  exact ⟨fun k hk => get?_discard_ne _ hk, fun k hk => Function.update_of_ne hk _ _,
    fun k hk => get?_discard_ne _ hk, rfl, fun k _ => rfl⟩

/-- A deletion forgets exactly the keys that the history and the tags do not know, where the
document is the key's own. -/
theorem forgets_iff (h : deletePattern svc key m = some (true, m')) :
    Forgets svc T key m m' ↔ Unknown key m ∧ svc.backend.document key = key := by
  have hm' := (deletePattern_eq h).2
  constructor
  · intro hforgets
    have hunknown : Unknown key m' := hforgets.forgotten.toUnknown
    rw [hm'] at hunknown
    exact ⟨⟨hunknown.unrated, hunknown.untagged⟩, document_of_othersKept h hforgets.others⟩
  · intro ⟨hunknown, hkey⟩
    have hafter : Unknown key m' := by
      rw [hm']
      exact ⟨hunknown.unrated, hunknown.untagged⟩
    refine ⟨⟨hafter, ?_, ?_, ?_⟩, othersKept_deletePattern h hkey, ?_⟩
    · rw [hm', removeRecord, hkey]
      exact get?_discard_self _
    · rw [hm']
      exact Function.update_self _ _ _
    · rw [hm']
      exact get?_discard_self _
    · intro ops hops
      have hrun : Always (applyMemory svc T) (Unknown key) m' ops :=
        always_of_allSteps (fun _ _ hm hop => hm.step hop) hafter hops
      exact hrun.last.startsFresh

end Frames

/-- In every run from an empty memory the deletions that report success forget their keys if
and only if the evaluation history and the skill tags did not know them, and each was asked for
by the own key of the document. -/
theorem deletions_forget_iff (svc : LearningService) (T : Core.FeedbackText)
    (run : ApartRun svc.backend (MemoryOp.savedKeys : MemoryOp F → List Text)) :
    AllSteps (applyMemory svc T) (fun m op => ∀ key m', op = .deletePattern key →
        deletePattern svc key m = some (true, m') → Forgets svc T key m m')
        emptyMemory run.ops ↔
      AllSteps (applyMemory svc T) (fun m op => ∀ key m', op = .deletePattern key →
        deletePattern svc key m = some (true, m') →
          Unknown key m ∧ svc.backend.document key = key) emptyMemory run.ops := by
  apply allSteps_congr (P := fun _ => True) (fun _ _ _ => trivial) _ trivial
  intro m op _
  constructor
  · intro h key m' hop hdelete
    exact (forgets_iff hdelete).mp (h key m' hop hdelete)
  · intro h key m' hop hdelete
    exact (forgets_iff hdelete).mpr (h key m' hop hdelete)

section Sample

def sortRecord : Record where
  task := some "sort a list".toList
  design := .empty
  successScore := some 9
  reuseCount := 0
  timestamp := 0
  authorKeyId := none

def sortKey : Text := patternKey "a1".toList

/-- A pattern is imported, rated badly, tagged, and deleted. -/
def ratedThenDeleted : List (MemoryOp Nat) :=
  [.importData outageEnv [(sortKey, sortRecord)] false,
    .evaluate sortKey "sort a list".toList 2 [] 1, .registerSkills sortKey ["sorting".toList],
    .deletePattern sortKey]

/-- What is stored under the key afterwards has the old rating and the old tags. -/
theorem rating_survives :
    ¬ AllSteps (applyMemory plainService Core.asciiFeedback) (fun m op => ∀ key m',
      op = .deletePattern key → deletePattern plainService key m = some (true, m') →
        Forgets plainService Core.asciiFeedback key m m') emptyMemory ratedThenDeleted := by
  intro h
  have hforgets := h.2.2.2.1 sortKey _ rfl rfl
  have hunrated := hforgets.forgotten.unrated
  exact hunrated ⟨sortKey, "sort a list".toList, ⟨2, []⟩, 1⟩ (by decide) rfl

end Sample

end Engramia.Patterns
