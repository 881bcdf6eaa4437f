import Engramia.Patterns.Learning
import Mathlib.Order.Basic

/-!
What one call of `learn` does. Either it writes no record, and the store is as it
was, or it writes the record under a known key and goes on with the other stores.
The second part may raise; what it leaves of the patterns is said once, for both
ways it can end.
-/
namespace Engramia.Patterns
open Engramia.Library Engramia.Storage

variable {F : Type} {svc : LearningService} {env : Env F} {c : LearnCall}
  {st : PatternStore F} {key : Text}

section Calls
variable {α : Type} {call : StorageCall}

theorem storageCall_ok (h : env.fails call = false) : storageCall env call st = .ok () st := by
  rw [storageCall, h]
  rfl

theorem storageCall_error (h : env.fails call = true) :
    storageCall env call st = .error (.storage call) st := by
  rw [storageCall, h]
  rfl

end Calls

section Duplicates
variable {task : Text} {patterns patterns' : OrderedDict Text Record} {found : Record}

theorem mem_listPatterns :
    key ∈ listPatterns patterns ↔ ∃ r, patterns.get? key = some r := by
  rw [listPatterns, List.mem_insertionSort, OrderedDict.mem_keys]

theorem listPatterns_congr (h : ∀ k, patterns.get? k = patterns'.get? k) :
    listPatterns patterns = listPatterns patterns' :=
  ((List.perm_insertionSort _ _).trans ((OrderedDict.keys_perm h).trans
    (List.perm_insertionSort _ _).symm)).eq_of_pairwise
    (fun _ _ _ _ hab hba => le_antisymm hab hba)
    (List.pairwise_insertionSort _ _) (List.pairwise_insertionSort _ _)

theorem duplicateAt_eq_some {x : Text × Record} :
    duplicateAt svc task patterns key = some x ↔
      x.1 = key ∧ patterns.get? key = some x.2 ∧ isDuplicate svc task x.2 = true := by
  rw [duplicateAt, Option.bind_eq_some_iff]
  constructor
  · intro h
    obtain ⟨r, hr, hx⟩ := h
    by_cases hdup : isDuplicate svc task r = true
    · rw [if_pos hdup] at hx
      cases hx
      exact ⟨rfl, hr, hdup⟩
    · rw [if_neg hdup] at hx
      cases hx
  · intro h
    exact ⟨x.2, h.2.1, by rw [if_pos h.2.2, ← h.1]⟩

/-- The duplicate found is the least in key order. -/
theorem findDuplicate_eq_some :
    findDuplicate svc task patterns = some (key, found) ↔
      (patterns.get? key = some found ∧ isDuplicate svc task found = true) ∧
      ∀ k r, patterns.get? k = some r → isDuplicate svc task r = true → key ≤ k := by
  have hsorted : (listPatterns patterns).Pairwise (· ≤ ·) := List.pairwise_insertionSort _ _
  rw [findDuplicate, List.findSome?_eq_some_iff]
  constructor
  · intro h
    obtain ⟨before, key', after, hkeys, hx, hnone⟩ := h
    obtain ⟨hkey, hfound⟩ := duplicateAt_eq_some.mp hx
    rw [show key' = key from hkey.symm] at hkeys hfound
    refine ⟨hfound, ?_⟩
    intro k r hr hdup
    have hmem : k ∈ listPatterns patterns := mem_listPatterns.mpr ⟨r, hr⟩
    rw [hkeys] at hmem hsorted
    cases List.mem_append.mp hmem with
    | inl hbefore =>
        have hat := duplicateAt_eq_some.mpr
          (show (k, r).1 = k ∧ _ from ⟨rfl, hr, hdup⟩)
        rw [hnone k hbefore] at hat
        cases hat
    | inr hafter =>
        cases List.mem_cons.mp hafter with
        | inl heq => rw [heq]
        | inr hlater =>
            exact List.rel_of_pairwise_cons (List.pairwise_append.mp hsorted).2.1 hlater
  · intro h
    obtain ⟨⟨hr, hdup⟩, hleast⟩ := h
    obtain ⟨before, after, hkeys⟩ := List.append_of_mem (mem_listPatterns.mpr ⟨found, hr⟩)
    refine ⟨before, key, after, hkeys, duplicateAt_eq_some.mpr ⟨rfl, hr, hdup⟩, ?_⟩
    intro k hk
    have hnodup : (listPatterns patterns).Nodup :=
      (List.perm_insertionSort _ _).nodup_iff.mpr patterns.unique
    rw [hkeys] at hsorted hnodup
    cases hx : duplicateAt svc task patterns k with
    | none => rfl
    | some x =>
        obtain ⟨-, hget, hdup'⟩ := duplicateAt_eq_some.mp hx
        have hle : k ≤ key := (List.pairwise_append.mp hsorted).2.2 k hk key List.mem_cons_self
        exact absurd (le_antisymm hle (hleast k x.2 hget hdup'))
          ((List.nodup_append.mp hnodup).2.2 k hk key List.mem_cons_self)

theorem findDuplicate_eq_none :
    findDuplicate svc task patterns = none ↔
      ∀ k r, patterns.get? k = some r → isDuplicate svc task r = false := by
  rw [findDuplicate, List.findSome?_eq_none_iff]
  constructor
  · intro h k r hr
    cases hdup : isDuplicate svc task r with
    | false => rfl
    | true =>
        have hat := duplicateAt_eq_some.mpr
          (show (k, r).1 = k ∧ _ from ⟨rfl, hr, hdup⟩)
        rw [h k (mem_listPatterns.mpr ⟨r, hr⟩)] at hat
        cases hat
  · intro h k _
    cases hx : duplicateAt svc task patterns k with
    | none => rfl
    | some x =>
        obtain ⟨-, hr, hdup⟩ := duplicateAt_eq_some.mp hx
        rw [h k x.2 hr] at hdup
        cases hdup

end Duplicates

section Decide

theorem learnUnder_eq : learnUnder svc env c key st =
    if ¬ (0 ≤ c.evalScore ∧ c.evalScore ≤ 10) then .error .invalidScore st
    else if env.fails .save then .error (.storage .save) st
    else finish svc env c key
      { st with patterns := st.patterns.set key (newRecord svc env c) } := by
  rw [learnUnder]
  by_cases hscore : 0 ≤ c.evalScore ∧ c.evalScore ≤ 10
  · rw [if_neg (not_not_intro hscore), if_neg (not_not_intro hscore)]
    cases hsave : env.fails .save with
    | true => exact bind_error (storageCall_error hsave)
    | false => exact bind_ok (storageCall_ok hsave)
  · rw [if_pos hscore, if_pos hscore]
    rfl

theorem resolve_eq (count : Nat) : resolve svc env c count st =
    match existing svc c st.patterns with
    | some (key, found) =>
        if keepsExisting c found then .ok ⟨false, count⟩ st else learnUnder svc env c key st
    | none => learnUnder svc env c (patternKey env.stamp) st := by
  show (match existing svc c st.patterns with
    | some (key, found) =>
        if keepsExisting c found then pure (LearnResult.mk false count)
        else learnUnder svc env c key
    | none => learnUnder svc env c (patternKey env.stamp)) st = _
  cases existing svc c st.patterns with
  | none => rfl
  | some found =>
      by_cases hkeep : keepsExisting c found.2 = true
      · simp only [if_pos hkeep]
        rfl
      · simp only [if_neg hkeep]

theorem learn_eq : learn svc env c st =
    if env.fails .countKeys then .error (.storage .countKeys) st
    else if maxPatternCount ≤ st.patterns.entries.length then .error .storeFull st
    else if c.onDuplicate ≠ .keepBoth ∧ env.fails .findDuplicate = true then
      .error (.storage .findDuplicate) st
    else resolve svc env c st.patterns.entries.length st := by
  rw [learn]
  cases hcount : env.fails .countKeys with
  | true => exact bind_error (storageCall_error hcount)
  | false =>
      rw [bind_ok (storageCall_ok hcount), if_neg Bool.false_ne_true]
      show (if maxPatternCount ≤ st.patterns.entries.length then _ else _ : LearnM F _) st = _
      by_cases hfull : maxPatternCount ≤ st.patterns.entries.length
      · rw [if_pos hfull, if_pos hfull]
        rfl
      · rw [if_neg hfull, if_neg hfull]
        show (if c.onDuplicate ≠ .keepBoth then _ else _ : LearnM F _) st = _
        by_cases hboth : c.onDuplicate ≠ .keepBoth
        · rw [if_pos hboth]
          cases hfind : env.fails .findDuplicate with
          | true =>
              rw [if_pos (And.intro hboth rfl)]
              exact bind_error (storageCall_error hfind)
          | false =>
              rw [if_neg fun h => Bool.false_ne_true h.2]
              exact bind_ok (storageCall_ok hfind)
        · rw [if_neg hboth, if_neg fun h => hboth h.1]

variable (svc env c) in
/-- The key under which a call writes its record, if it gets that far. -/
def writtenKey (patterns : OrderedDict Text Record) : Option Text :=
  if env.fails .countKeys ∨ maxPatternCount ≤ patterns.entries.length ∨
      (c.onDuplicate ≠ .keepBoth ∧ env.fails .findDuplicate) ∨
      ¬ (0 ≤ c.evalScore ∧ c.evalScore ≤ 10) ∨ env.fails .save then none
  else match existing svc c patterns with
    | some (key, found) => if keepsExisting c found then none else some key
    | none => some (patternKey env.stamp)

variable (svc env c st key) in
/-- The store once the record is written. -/
def withRecord : PatternStore F :=
  { st with patterns := st.patterns.set key (newRecord svc env c) }

variable (svc env c st) in
/-- The store is as it was, and an answer says that an existing record stays. -/
structure LeavesStore : Prop where
  unchanged : final (learn svc env c st) = st
  answer : ∀ r, outcome (learn svc env c st) = .ok r → r.stored = false ∧
    ∃ found, existing svc c st.patterns = some found ∧ keepsExisting c found.2 = true

/-- A call that writes its record goes on from there. -/
theorem learn_of_written (h : writtenKey svc env c st.patterns = some key) :
    learn svc env c st = finish svc env c key (withRecord svc env c st key) := by
  rw [writtenKey] at h
  split at h
  · cases h
  · rename_i hgo
    rw [not_or, not_or, not_or, not_or, not_not] at hgo
    obtain ⟨hcount, hfull, hfind, hscore, hsave⟩ := hgo
    have hunder : ∀ k, learnUnder svc env c k st =
        finish svc env c k (withRecord svc env c st k) := by
      intro k
      rw [learnUnder_eq, if_neg (not_not_intro hscore), if_neg hsave]
      rfl
    rw [learn_eq, if_neg hcount, if_neg hfull, if_neg hfind, resolve_eq]
    cases hex : existing svc c st.patterns with
    | none =>
        rw [hex] at h
        rw [← Option.some.inj h]
        exact hunder _
    | some found =>
        rw [hex] at h
        by_cases hkeep : keepsExisting c found.2 = true
        · simp only [if_pos hkeep] at h
          cases h
        · simp only [if_neg hkeep] at h ⊢
          rw [← Option.some.inj h]
          exact hunder _

/-- A call that writes no record leaves the store as it was. -/
theorem learn_of_not_written (h : writtenKey svc env c st.patterns = none) :
    LeavesStore svc env c st := by
  have hunder : ∀ k, (¬ (0 ≤ c.evalScore ∧ c.evalScore ≤ 10) ∨ env.fails .save = true) →
      ∃ e, learnUnder svc env c k st = .error e st := by
    intro k hk
    rw [learnUnder_eq]
    by_cases hscore : ¬ (0 ≤ c.evalScore ∧ c.evalScore ≤ 10)
    · exact ⟨_, if_pos hscore⟩
    · rw [if_neg hscore, if_pos (hk.resolve_left hscore)]
      exact ⟨_, rfl⟩
  have herror : ∀ e, learn svc env c st = .error e st → LeavesStore svc env c st := by
    intro e he
    refine ⟨by rw [he]; rfl, ?_⟩
    intro r hr
    rw [he] at hr
    cases hr
  rw [writtenKey] at h
  by_cases hcount : env.fails .countKeys = true
  · exact herror _ (by rw [learn_eq, if_pos hcount])
  · by_cases hfull : maxPatternCount ≤ st.patterns.entries.length
    · exact herror _ (by rw [learn_eq, if_neg hcount, if_pos hfull])
    · by_cases hfind : c.onDuplicate ≠ .keepBoth ∧ env.fails .findDuplicate = true
      · exact herror _ (by rw [learn_eq, if_neg hcount, if_neg hfull, if_pos hfind])
      · have hlearn : learn svc env c st = resolve svc env c st.patterns.entries.length st := by
          rw [learn_eq, if_neg hcount, if_neg hfull, if_neg hfind]
        rw [resolve_eq] at hlearn
        simp only [hcount, hfull, hfind, false_or, Bool.false_eq_true] at h
        cases hex : existing svc c st.patterns with
        | none =>
            rw [hex] at hlearn h
            split at h
            · rename_i hbad
              obtain ⟨e, he⟩ := hunder (patternKey env.stamp) hbad
              exact herror e (hlearn.trans he)
            · cases h
        | some found =>
            rw [hex] at hlearn h
            by_cases hkeep : keepsExisting c found.2 = true
            · simp only [if_pos hkeep] at hlearn
              refine ⟨by rw [hlearn]; rfl, ?_⟩
              intro r hr
              rw [hlearn] at hr
              cases hr
              exact ⟨rfl, found, hex, hkeep⟩
            · simp only [if_neg hkeep] at hlearn h
              split at h
              · rename_i hbad
                obtain ⟨e, he⟩ := hunder found.1 hbad
                exact herror e (hlearn.trans he)
              · cases h

end Decide

section Finish

variable (svc env c) in
/-- What the embedding step raises. -/
def embedError (index : Index F) : Option LearnError :=
  match env.embeddings with
  | none => none
  | some provider =>
      match provider c.task with
      | none => some .provider
      | some embedding =>
          if refuses svc index embedding then some .dimensionMismatch
          else if env.fails .saveEmbedding then some (.storage .saveEmbedding) else none

theorem saveEmbedding_eq (embedding : List F) : saveEmbedding svc env key embedding st =
    if refuses svc st.embeddings embedding then .error .dimensionMismatch st
    else match svc.backend with
      | .json => (putEmbedding key embedding >>= fun _ => storageCall env .saveEmbedding) st
      | .postgres _ => (storageCall env .saveEmbedding >>= fun _ => putEmbedding key embedding) st := by
  show (if refuses svc st.embeddings embedding = true then _ else _ : LearnM F _) st = _
  by_cases h : refuses svc st.embeddings embedding = true
  · rw [if_pos h, if_pos h]
    rfl
  · rw [if_neg h, if_neg h]
    show (match svc.backend with
      | .json => _
      | .postgres _ => _ : LearnM F Unit) st = _
    cases svc.backend <;> rfl

theorem embed_error {e : LearnError} (h : embedError svc env c st.embeddings = some e) :
    ∃ index, embed svc env c key st = .error e { st with embeddings := index } := by
  rw [embedError] at h
  rw [embed]
  cases hp : env.embeddings with
  | none => rw [hp] at h; cases h
  | some provider =>
      rw [hp] at h
      cases hv : provider c.task with
      | none =>
          simp only [hv] at h ⊢
          rw [← Option.some.inj h]
          exact ⟨st.embeddings, rfl⟩
      | some embedding =>
          simp only [hv] at h ⊢
          rw [saveEmbedding_eq]
          by_cases href : refuses svc st.embeddings embedding = true
          · rw [if_pos href] at h ⊢
            rw [← Option.some.inj h]
            exact ⟨st.embeddings, rfl⟩
          · rw [if_neg href] at h ⊢
            cases hfail : env.fails .saveEmbedding with
            | false => rw [hfail] at h; cases h
            | true =>
                rw [hfail] at h
                rw [← Option.some.inj h]
                cases svc.backend with
                | json =>
                    exact ⟨st.embeddings.set key embedding, storageCall_error hfail⟩
                | postgres _ =>
                    exact ⟨st.embeddings, bind_error (storageCall_error hfail)⟩

theorem embed_ok (h : embedError svc env c st.embeddings = none) :
    ∃ index, embed svc env c key st = .ok () { st with embeddings := index } ∧
      ∀ provider embedding, env.embeddings = some provider → provider c.task = some embedding →
        index = st.embeddings.set key embedding := by
  rw [embedError] at h
  rw [embed]
  cases hp : env.embeddings with
  | none =>
      refine ⟨st.embeddings, rfl, ?_⟩
      intro _ _ hprovider
      cases hprovider
  | some provider =>
      rw [hp] at h
      cases hv : provider c.task with
      | none => simp only [hv] at h; cases h
      | some embedding =>
          simp only [hv] at h ⊢
          refine ⟨st.embeddings.set key embedding, ?_, ?_⟩
          · rw [saveEmbedding_eq]
            by_cases href : refuses svc st.embeddings embedding = true
            · rw [if_pos href] at h; cases h
            · rw [if_neg href] at h ⊢
              cases hfail : env.fails .saveEmbedding with
              | true => rw [hfail] at h; cases h
              | false =>
                  cases svc.backend with
                  | json => exact storageCall_ok hfail
                  | postgres _ => exact bind_ok (storageCall_ok hfail)
          · intro p v hprovider hvector
            cases hprovider
            rw [hv] at hvector
            cases hvector
            rfl

variable (svc env c) in
/-- Whether the governance columns are mirrored into the record. -/
def mirrors : Bool :=
  match svc.backend with
  | .json => false
  | .postgres _ => !env.fails .savePatternMeta

theorem savePatternMeta_eq (redacted : Bool) :
    ∃ st', savePatternMeta svc env c key redacted st = .ok () st' ∧
      st'.embeddings = st.embeddings ∧ st'.evals = st.evals ∧
      ∀ k, st'.patterns.get? k =
        if k = key ∧ mirrors svc env then (st.patterns.get? k).map (mirrorLabels c)
        else st.patterns.get? k := by
  rw [savePatternMeta, mirrors]
  cases svc.backend with
  | json =>
      refine ⟨st, rfl, rfl, rfl, ?_⟩
      intro k
      rw [if_neg fun h => Bool.false_ne_true h.2]
  | postgres dim =>
      cases hfail : env.fails .savePatternMeta with
      | true =>
          refine ⟨st, rfl, rfl, rfl, ?_⟩
          intro k
          rw [if_neg fun h => Bool.false_ne_true h.2]
      | false =>
          cases hr : st.patterns.get? key with
          | none =>
              refine ⟨st, ?_, rfl, rfl, ?_⟩
              · show EStateM.Result.ok () (updateMeta c key redacted st) = _
                rw [updateMeta, hr]
              · intro k
                by_cases hk : k = key
                · rw [if_pos ⟨hk, rfl⟩, hk, hr]
                  rfl
                · rw [if_neg fun h => hk h.1]
          | some r =>
              refine ⟨{ st with
                patterns := st.patterns.set key (mirrorLabels c r)
                columns := Function.update st.columns key
                  ((st.columns key).next c redacted) }, ?_, rfl, rfl, ?_⟩
              · show EStateM.Result.ok () (updateMeta c key redacted st) = _
                rw [updateMeta, hr]
              · intro k
                show (st.patterns.set key (mirrorLabels c r)).get? k = _
                rw [OrderedDict.get?_set]
                by_cases hk : k = key
                · rw [if_pos hk, if_pos ⟨hk, rfl⟩, hk, hr]
                  rfl
                · rw [if_neg hk, if_neg fun h => hk h.1]

variable (env) in
/-- Whether a step after the embedding raises. -/
def RecordingRaises : Prop :=
  env.fails .saveEval ∨ env.fails .recordRun ∨ env.fails .recount

theorem recordLearn_spec :
    (final (recordLearn env c key st)).patterns = st.patterns ∧
    (final (recordLearn env c key st)).embeddings = st.embeddings ∧
    ((final (recordLearn env c key st)).evals = st.evals ∨
      (final (recordLearn env c key st)).evals =
        storeEval st.evals (evalRecord env c key)) ∧
    ((∃ e, outcome (recordLearn env c key st) = .error e) ↔ RecordingRaises env) ∧
    ∀ r, outcome (recordLearn env c key st) = .ok r → r.stored = true := by
  rw [RecordingRaises]
  have hraise : ∀ st' e, recordLearn env c key st = .error e st' →
      ((∃ e, outcome (recordLearn env c key st) = .error e) ↔ True) ∧
      ∀ r, outcome (recordLearn env c key st) = .ok r → r.stored = true := by
    intro st' e h
    rw [h]
    refine ⟨iff_true_intro ⟨e, rfl⟩, ?_⟩
    intro r hr
    cases hr
  cases heval : env.fails .saveEval with
  | true =>
      have h : recordLearn env c key st = .error (.storage .saveEval) st :=
        bind_error (bind_error (storageCall_error heval))
      refine ⟨by rw [h]; rfl, by rw [h]; rfl, .inl (by rw [h]; rfl), ?_⟩
      simpa using hraise _ _ h
  | false =>
      generalize hevals : storeEval st.evals (evalRecord env c key) = evals
      have hsave : saveEval env c key st = .ok () { st with evals := evals } := by
        rw [← hevals]
        exact bind_ok (storageCall_ok heval)
      cases hrun : env.fails .recordRun with
      | true =>
          have h : recordLearn env c key st =
              .error (.storage .recordRun) { st with evals := evals } :=
            (bind_ok hsave).trans (bind_error (storageCall_error hrun))
          refine ⟨by rw [h]; rfl, by rw [h]; rfl, .inr (by rw [h]; rfl), ?_⟩
          simpa using hraise _ _ h
      | false =>
          cases hcount : env.fails .recount with
          | true =>
              have h : recordLearn env c key st =
                  .error (.storage .recount) { st with evals := evals } :=
                (bind_ok hsave).trans ((bind_ok (storageCall_ok hrun)).trans
                  (bind_error (storageCall_error hcount)))
              refine ⟨by rw [h]; rfl, by rw [h]; rfl, .inr (by rw [h]; rfl), ?_⟩
              simpa using hraise _ _ h
          | false =>
              have h : recordLearn env c key st =
                  .ok ⟨true, st.patterns.entries.length⟩ { st with evals := evals } :=
                (bind_ok hsave).trans ((bind_ok (storageCall_ok hrun)).trans
                  (bind_ok (storageCall_ok hcount)))
              refine ⟨by rw [h]; rfl, by rw [h]; rfl, .inr (by rw [h]; rfl), ?_, ?_⟩
              · rw [h]
                simp [outcome]
              · intro r hr
                rw [h] at hr
                cases hr
                rfl

variable (svc env c) in
/-- Whether a step after the write of the record raises. -/
def FinishRaises (index : Index F) : Prop :=
  embedError svc env c index ≠ none ∨ RecordingRaises env

variable (svc env c) in
/-- The record a call that writes leaves in the store. -/
def storedRecord (index : Index F) : Record :=
  if embedError svc env c index = none ∧ mirrors svc env then
    mirrorLabels c (newRecord svc env c)
  else newRecord svc env c

/-- Mirroring the labels changes the design alone. -/
theorem storedRecord_eq (index : Index F) :
    ∃ design, storedRecord svc env c index = { newRecord svc env c with design := design } := by
  rw [storedRecord]
  by_cases h : embedError svc env c index = none ∧ mirrors svc env = true
  · rw [if_pos h]
    exact ⟨_, rfl⟩
  · rw [if_neg h]
    exact ⟨_, rfl⟩

theorem storedRecord_fields (index : Index F) :
    (storedRecord svc env c index).task = some c.task ∧
      (storedRecord svc env c index).successScore = some c.evalScore := by
  obtain ⟨design, h⟩ := @storedRecord_eq F svc env c index
  rw [h]
  exact ⟨rfl, rfl⟩

variable (svc env c st key) in
structure WritesRecord : Prop where
  patterns : ∀ k, (final (learn svc env c st)).patterns.get? k =
    if k = key then some (storedRecord svc env c st.embeddings) else st.patterns.get? k
  evals : (final (learn svc env c st)).evals = st.evals ∨
    (final (learn svc env c st)).evals = storeEval st.evals (evalRecord env c key)
  raises : (∃ e, outcome (learn svc env c st) = .error e) ↔ FinishRaises svc env c st.embeddings
  stored : ∀ r, outcome (learn svc env c st) = .ok r → r.stored = true
  embedded : ∀ r provider embedding, outcome (learn svc env c st) = .ok r →
    env.embeddings = some provider → provider c.task = some embedding →
      (final (learn svc env c st)).embeddings.get? key = some embedding

/-- A call that gets to its write leaves the record, whether or not it raises. -/
theorem learn_of_some (h : writtenKey svc env c st.patterns = some key) :
    WritesRecord svc env c st key := by
  have hlearn := learn_of_written h
  have hrecord : ∀ k, (withRecord svc env c st key).patterns.get? k =
      if k = key then some (newRecord svc env c) else st.patterns.get? k :=
    fun k => OrderedDict.get?_set k
  cases herr : embedError svc env c st.embeddings with
  | some e =>
      obtain ⟨index, hembed⟩ := @embed_error F svc env c (withRecord svc env c st key) key e herr
      have hraises : FinishRaises svc env c st.embeddings := .inl (by rw [herr]; simp)
      have heq : learn svc env c st =
          .error e { withRecord svc env c st key with embeddings := index } :=
        hlearn.trans (bind_error hembed)
      refine ⟨?_, .inl (by rw [heq]; rfl), ?_, ?_, ?_⟩
      · intro k
        have hplain : storedRecord svc env c st.embeddings = newRecord svc env c := by
          rw [storedRecord, herr]
          exact if_neg fun h => absurd h.1 (Option.some_ne_none e)
        rw [heq, hplain]
        exact hrecord k
      · rw [heq]
        exact iff_of_true ⟨e, rfl⟩ hraises
      · intro r hr
        rw [heq] at hr
        cases hr
      · intro r _ _ hr
        rw [heq] at hr
        cases hr
  | none =>
      obtain ⟨index, hembed, hindex⟩ :=
        @embed_ok F svc env c (withRecord svc env c st key) key herr
      obtain ⟨st', hmeta, hembeddings, hevals, hpatterns⟩ :=
        @savePatternMeta_eq F svc env c { withRecord svc env c st key with embeddings := index }
          key (redactedDesign svc c).2
      have heq : learn svc env c st = recordLearn env c key st' :=
        hlearn.trans ((bind_ok hembed).trans (bind_ok hmeta))
      obtain ⟨hpat, hemb, hev, hraise, hstored⟩ :=
        @recordLearn_spec F env c st' key
      rw [← heq] at hpat hemb hev hraise hstored
      refine ⟨?_, ?_, ?_, hstored, ?_⟩
      · intro k
        rw [hpat, hpatterns, storedRecord, herr]
        show (if _ then ((withRecord svc env c st key).patterns.get? k).map (mirrorLabels c)
          else (withRecord svc env c st key).patterns.get? k) = _
        rw [hrecord k]
        by_cases hk : k = key
        · by_cases hm : mirrors svc env = true
          · rw [if_pos ⟨hk, hm⟩, if_pos hk, if_pos hk, if_pos ⟨rfl, hm⟩]
            rfl
          · rw [if_neg fun h => hm h.2, if_pos hk, if_pos hk, if_neg fun h => hm h.2]
        · rw [if_neg fun h => hk h.1, if_neg hk, if_neg hk]
      · rw [hevals] at hev
        exact hev
      · rw [hraise, FinishRaises, herr]
        simp
      · intro r provider embedding _ hprovider hvector
        rw [hemb, hembeddings]
        show index.get? key = some embedding
        rw [hindex provider embedding hprovider hvector, OrderedDict.get?_set, if_pos rfl]

end Finish

end Engramia.Patterns
