import Engramia.Patterns.Outcomes

/-!
Learning that fails halfway. A failed call is to leave the stored patterns as they
were, so that the same call stores its pattern with its embedding once the provider
has recovered. The record is written before anything that may fail late, so this
holds exactly of the calls that raise at the write of the record or before it. A
call that raises later leaves a pattern without an embedding, and this pattern
turns every later attempt away.
-/
namespace Engramia.Patterns
open Engramia.Library Engramia.Storage

variable {F : Type} {svc : LearningService} {env : Env F} {c : LearnCall}
  {st : PatternStore F}

section Congruence
variable {patterns patterns' : OrderedDict Text Record}

theorem existing_congr (h : ∀ k, patterns.get? k = patterns'.get? k) :
    existing svc c patterns = existing svc c patterns' := by
  have hat : duplicateAt svc c.task patterns = duplicateAt svc c.task patterns' := by
    funext key
    rw [duplicateAt, duplicateAt, h]
  rw [existing, existing, findDuplicate, findDuplicate, listPatterns_congr h, hat]

theorem writtenKey_congr (h : ∀ k, patterns.get? k = patterns'.get? k) :
    writtenKey svc env c patterns = writtenKey svc env c patterns' := by
  have hlength : patterns.entries.length = patterns'.entries.length := by
    have hperm := (OrderedDict.keys_perm h).length_eq
    rwa [List.length_map, List.length_map] at hperm
  rw [writtenKey, writtenKey, existing_congr h, hlength]

end Congruence

section Law
variable (svc env c st)

/-- Every storage call works and the provider answers with a vector the index takes. -/
structure Healthy (index : Index F) (embedding : List F) : Prop where
  calls : ∀ call, env.fails call = false
  provider : ∃ provider, env.embeddings = some provider ∧ provider c.task = some embedding
  accepted : refuses svc index embedding = false

/-- A call that stores its pattern with its embedding. -/
def StoresEmbedded (key : Text) (embedding : List F) : Prop :=
  (∃ count, outcome (learn svc env c st) = .ok ⟨true, count⟩) ∧
    (final (learn svc env c st)).patterns.get? key ≠ none ∧
    (final (learn svc env c st)).embeddings.get? key = some embedding

/-- The patterns are those from before the call, and a call that would have stored
its pattern then stores it when it is repeated. -/
structure FailsCleanly : Prop where
  unchanged : ∀ k, (final (learn svc env c st)).patterns.get? k = st.patterns.get? k
  retry : ∀ (env' : Env F) (embedding : List F) (key : Text),
    Healthy svc env' c (final (learn svc env c st)).embeddings embedding →
    writtenKey svc env' c st.patterns = some key →
      StoresEmbedded svc env' c (final (learn svc env c st)) key embedding

end Law

theorem Healthy.not_raises {index : Index F} {embedding : List F}
    (h : Healthy svc env c index embedding) : ¬ FinishRaises svc env c index := by
  obtain ⟨provider, hprovider, hvector⟩ := h.provider
  rw [FinishRaises, RecordingRaises, embedError, hprovider]
  simp only [hvector, h.accepted, h.calls]
  simp

theorem Healthy.stores {embedding : List F} {key : Text}
    (h : Healthy svc env c st.embeddings embedding)
    (hkey : writtenKey svc env c st.patterns = some key) :
    StoresEmbedded svc env c st key embedding := by
  have hwrites := learn_of_some hkey
  obtain ⟨provider, hprovider, hvector⟩ := h.provider
  have hpattern : (final (learn svc env c st)).patterns.get? key ≠ none := by
    rw [hwrites.patterns, if_pos rfl]
    exact Option.some_ne_none _
  cases hout : outcome (learn svc env c st) with
  | error e => exact absurd (hwrites.raises.mp ⟨e, hout⟩) h.not_raises
  | ok r =>
      have hstored := hwrites.stored r hout
      refine ⟨⟨r.patternCount, ?_⟩, hpattern,
        hwrites.embedded r provider embedding hout hprovider hvector⟩
      rw [hout, ← hstored]

/-- A raising call keeps the law exactly when no step after the write of the record
raises, or that write changed nothing. -/
theorem failed_learn_clean_iff (svc : LearningService) (env : Env F) (c : LearnCall)
    (st : PatternStore F) :
    ((∃ e, outcome (learn svc env c st) = .error e) → FailsCleanly svc env c st) ↔
      ∀ key, writtenKey svc env c st.patterns = some key →
        FinishRaises svc env c st.embeddings →
          st.patterns.get? key = some (storedRecord svc env c st.embeddings) := by
  constructor
  · intro hlaw key hkey hraises
    have hwrites := learn_of_some hkey
    have hclean := hlaw (hwrites.raises.mpr hraises)
    rw [← hclean.unchanged key, hwrites.patterns, if_pos rfl]
  · intro hcond hraised
    have hunchanged : ∀ k, (final (learn svc env c st)).patterns.get? k =
        st.patterns.get? k := by
      intro k
      cases hkey : writtenKey svc env c st.patterns with
      | none => rw [(learn_of_not_written hkey).unchanged]
      | some key =>
          have hwrites := learn_of_some hkey
          rw [hwrites.patterns]
          by_cases hk : k = key
          · rw [if_pos hk, hk, hcond key hkey (hwrites.raises.mp hraised)]
          · rw [if_neg hk]
    refine ⟨hunchanged, ?_⟩
    intro env' embedding key hhealthy hkey
    apply hhealthy.stores
    rw [writtenKey_congr hunchanged]
    exact hkey

section HalfWritten
variable {key : Text}

theorem existing_after_write (hkey : writtenKey svc env c st.patterns = some key)
    (hboth : c.onDuplicate ≠ .keepBoth) (hwords : words svc.text c.task ≠ ∅) :
    existing svc c (final (learn svc env c st)).patterns =
      some (key, storedRecord svc env c st.embeddings) := by
  have hwrites := learn_of_some hkey
  have hdup : isDuplicate svc c.task (storedRecord svc env c st.embeddings) = true := by
    rw [isDuplicate, (storedRecord_fields st.embeddings).1]
    exact decide_eq_true (duplicate_self.mpr hwords)
  rw [existing, if_neg hboth, findDuplicate_eq_some]
  refine ⟨⟨by rw [hwrites.patterns, if_pos rfl], hdup⟩, ?_⟩
  intro k r hr hrdup
  rw [hwrites.patterns] at hr
  by_cases hk : k = key
  · rw [hk]
  · rw [if_neg hk] at hr
    rw [writtenKey, existing, if_neg hboth] at hkey
    split at hkey
    · cases hkey
    · cases hfind : findDuplicate svc c.task st.patterns with
      | none =>
          rw [findDuplicate_eq_none.mp hfind k r hr] at hrdup
          cases hrdup
      | some found =>
          rw [hfind] at hkey
          by_cases hkeep : keepsExisting c found.2 = true
          · simp only [if_pos hkeep] at hkey
            cases hkey
          · simp only [if_neg hkeep] at hkey
            rw [← Option.some.inj hkey]
            exact (findDuplicate_eq_some.mp hfind).2 k r hr hrdup

/-- No repetition of a call that has written its record ever writes again, whether or
not the record has an embedding. -/
theorem retry_rejected (hkey : writtenKey svc env c st.patterns = some key)
    (hboth : c.onDuplicate ≠ .keepBoth) (hwords : words svc.text c.task ≠ ∅)
    (env' : Env F) :
    writtenKey svc env' c (final (learn svc env c st)).patterns = none := by
  have hkeep : keepsExisting c (storedRecord svc env c st.embeddings) = true := by
    rw [keepsExisting, (storedRecord_fields st.embeddings).2]
    simp
  rw [writtenKey, existing_after_write hkey hboth hwords]
  simp only [if_pos hkeep, ite_self]

end HalfWritten

/-- The provider is down, the pattern stays, and the repeated call is turned away. -/
theorem outage_not_clean :
    ¬ ((∃ e, outcome (learn plainService outageEnv sortCall emptyPatternStore) = .error e) →
      FailsCleanly plainService outageEnv sortCall emptyPatternStore) ∧
    outcome (learn plainService { outageEnv with embeddings := some fun _ => some [1] } sortCall
      (final (learn plainService outageEnv sortCall emptyPatternStore))) =
        .ok ⟨false, 1⟩ := by
  refine ⟨?_, by decide⟩
  intro h
  have hclean := h ⟨.provider, by decide⟩
  have hstored : ((final (learn plainService outageEnv sortCall emptyPatternStore)).patterns.get?
      (patternKey "a1".toList)).isSome = true := by decide
  rw [hclean.unchanged] at hstored
  cases hstored

end Engramia.Patterns
