import Engramia.Evaluation.FeedbackDecay

/-!
The feedback of one scope over any run of `record` and `run_decay`. A text becomes a cluster of
its own only when no stored one is similar to it, and the text that is stored normalises to the
one that was compared. What drops the oldest and what prunes leave the others apart, and a
cluster that is counted again keeps its text.
-/
namespace Engramia.Evaluation
open Engramia.Library Engramia.Patterns Engramia.Storage
open Engramia.Core (FeedbackText clusterThreshold maxFeedbackLen maxKeep normalize strip)

section Texts

/-- Blanks around a text stay as they are, and do not change the lower case of the text. -/
structure LawfulLower (T : TextMethods) : Prop where
  between : ∀ before text after, (∀ ch ∈ before, T.isspace ch) → (∀ ch ∈ after, T.isspace ch) →
    T.lower (before ++ text ++ after) = before ++ T.lower text ++ after

variable {T : FeedbackText} {before text after : Text}

theorem dropWhile_blanks (h : ∀ ch ∈ before, T.isspace ch) :
    (before ++ text).dropWhile T.isspace = text.dropWhile T.isspace := by
  induction before with
  | nil => rfl
  | cons ch before ih =>
      rw [List.cons_append, List.dropWhile_cons_of_pos (h ch List.mem_cons_self)]
      exact ih fun ch hch => h ch (List.mem_cons_of_mem _ hch)

theorem rdropWhile_blanks (h : ∀ ch ∈ after, T.isspace ch) :
    (text ++ after).rdropWhile T.isspace = text.rdropWhile T.isspace := by
  induction after using List.reverseRecOn with
  | nil => rw [List.append_nil]
  | append_singleton after ch ih =>
      have hch : T.isspace ch := h ch (List.mem_append_right _ List.mem_cons_self)
      rw [← List.append_assoc, List.rdropWhile_concat_pos _ _ _ hch]
      exact ih fun ch hch => h ch (List.mem_append_left _ hch)

theorem strip_blanks (hbefore : ∀ ch ∈ before, T.isspace ch)
    (hafter : ∀ ch ∈ after, T.isspace ch) :
    strip T (before ++ text ++ after) = strip T text := by
  rw [strip, strip, List.append_assoc, dropWhile_blanks hbefore, List.dropWhile_append]
  cases hall : (text.dropWhile T.isspace).isEmpty with
  | true =>
      have hnil : after.dropWhile T.isspace = [] := List.dropWhile_eq_nil_iff.mpr hafter
      rw [if_pos rfl, hnil, List.isEmpty_iff.mp hall]
  | false => rw [if_neg Bool.false_ne_true, rdropWhile_blanks hafter]

theorem strip_split (T : FeedbackText) (text : Text) :
    ∃ before after, (∀ ch ∈ before, T.isspace ch) ∧ (∀ ch ∈ after, T.isspace ch) ∧
      text = before ++ strip T text ++ after := by
  refine ⟨text.takeWhile T.isspace, (text.dropWhile T.isspace).rtakeWhile T.isspace, ?_, ?_, ?_⟩
  · intro ch hch
    exact List.mem_takeWhile_imp hch
  · intro ch hch
    exact List.mem_rtakeWhile_imp hch
  · rw [strip, List.append_assoc, List.rdropWhile_append_rtakeWhile,
      List.takeWhile_append_dropWhile]

theorem normalize_strip (hlower : LawfulLower T.toTextMethods) (text : Text) :
    normalize T (strip T text) = normalize T text := by
  obtain ⟨before, after, hbefore, hafter, hsplit⟩ := strip_split T text
  have hstrip : strip T (T.lower text) = strip T (T.lower (strip T text)) := by
    calc strip T (T.lower text)
        = strip T (before ++ T.lower (strip T text) ++ after) := by
          rw [← hlower.between _ _ _ hbefore hafter, ← hsplit]
      _ = strip T (T.lower (strip T text)) := strip_blanks hbefore hafter
  rw [Core.normalize, Core.normalize, hstrip]

end Texts

section Store
variable (T : FeedbackText)

inductive FeedbackCall where
  | record (text : Text) (now : ℤ)
  | runDecay (now : ℝ)

/-- A call, from the stored list to the stored list. -/
noncomputable def feedbackStep (entries : List FeedbackEntry) : FeedbackCall → List FeedbackEntry
  | .record text now =>
      (recordFeedback T.toTextMethods (normalize T) (strip T) text now entries).getD entries
  | .runDecay now => (runDecay entries now).1

/-- The text of an entry is similar to a text. -/
def SimilarTo (text : Text) (e : FeedbackEntry) : Prop :=
  clusterThreshold < jaccard T.toTextMethods (normalize T e.pattern) (normalize T text)

instance decidableSimilarTo (text : Text) (e : FeedbackEntry) : Decidable (SimilarTo T text e) :=
  inferInstanceAs (Decidable (_ < _))

def Apart (e e' : FeedbackEntry) : Prop :=
  jaccard T.toTextMethods (normalize T e.pattern) (normalize T e'.pattern) ≤ clusterThreshold

structure FeedbackInvariant (entries : List FeedbackEntry) : Prop where
  few : entries.length ≤ maxKeep
  counted : ∀ e ∈ entries, 1 ≤ e.count
  scored : ∀ e ∈ entries, 0 < e.score ∧ e.score ≤ 1
  apart : entries.Pairwise (Apart T)

/-- A text is counted once, by the first entry it is similar to, or by one of its own when there
is none. Then the oldest entries may go. -/
inductive CountedOnce (text : Text) : List FeedbackEntry → List FeedbackEntry → Prop where
  | again {front back : List FeedbackEntry} {e e' : FeedbackEntry} :
      (∀ e ∈ front, ¬ SimilarTo T text e) → SimilarTo T text e → e'.pattern = e.pattern →
        e'.count = e.count + 1 →
          CountedOnce text (front ++ e :: back) (front ++ e' :: back)
  | first {evicted kept : List FeedbackEntry} {e : FeedbackEntry} :
      (∀ e ∈ evicted ++ kept, ¬ SimilarTo T text e) → e.pattern = strip T text → e.count = 1 →
        CountedOnce text (evicted ++ kept) (kept ++ [e])

end Store

section Steps
variable {T : FeedbackText} {entries : List FeedbackEntry}

/-- What is left of a list in its order, with texts as before, is as far apart. -/
theorem apart_of_patterns {left : List FeedbackEntry}
    (hsub : (left.map FeedbackEntry.pattern).Sublist (entries.map FeedbackEntry.pattern))
    (h : entries.Pairwise (Apart T)) : left.Pairwise (Apart T) := by
  have hpatterns : (entries.map FeedbackEntry.pattern).Pairwise fun a b =>
      jaccard T.toTextMethods (normalize T a) (normalize T b) ≤ clusterThreshold :=
    List.pairwise_map.mpr h
  have hleft := List.pairwise_map.mp (hpatterns.sublist hsub)
  exact hleft

theorem decayEntry_spec {now : ℝ} {e e' : FeedbackEntry} (h : decayEntry now e = some e') :
    e'.pattern = e.pattern ∧ e'.count = e.count ∧ 0 < e'.score ∧ e'.score ≤ 1 := by
  rw [decayEntry] at h
  split at h
  case isTrue hmin =>
    have heq := Option.some.inj h
    have hpos : (0 : ℝ) < feedbackMinScore := by norm_num [feedbackMinScore]
    rw [← heq]
    exact ⟨rfl, rfl, hpos.trans_le (le_roundTo minScore_decimals hmin),
      (decayed_bounds e.bounds (le_max_left _ _)).2⟩
  case isFalse => cases h

theorem decayEntry_patterns (now : ℝ) (entries : List FeedbackEntry) :
    ((entries.filterMap (decayEntry now)).map FeedbackEntry.pattern).Sublist
      (entries.map FeedbackEntry.pattern) := by
  induction entries with
  | nil => exact List.Sublist.refl _
  | cons e entries ih =>
      cases hdecay : decayEntry now e with
      | none =>
          rw [List.filterMap_cons_none hdecay]
          exact ih.cons e.pattern
      | some e' =>
          rw [List.filterMap_cons_some hdecay, List.map_cons, List.map_cons,
            (decayEntry_spec hdecay).1]
          exact ih.cons_cons e.pattern

theorem runDecay_invariant (now : ℝ) (h : FeedbackInvariant T entries) :
    FeedbackInvariant T (runDecay entries now).1 where
  few := (List.length_filterMap_le _ _).trans h.few
  counted := by
    intro e' he'
    obtain ⟨e, he, hdecay⟩ := List.mem_filterMap.mp he'
    rw [(decayEntry_spec hdecay).2.1]
    exact h.counted e he
  scored := by
    intro e' he'
    obtain ⟨e, _, hdecay⟩ := List.mem_filterMap.mp he'
    exact (decayEntry_spec hdecay).2.2
  apart := apart_of_patterns (decayEntry_patterns now entries) h.apart

theorem forall_replace {P : FeedbackEntry → Prop} {front back : List FeedbackEntry}
    {e e' : FeedbackEntry} (h : ∀ x ∈ front ++ e :: back, P x) (he' : P e') :
    ∀ x ∈ front ++ e' :: back, P x := by
  intro x hx
  cases List.mem_append.mp hx with
  | inl hfront => exact h x (List.mem_append_left _ hfront)
  | inr hrest =>
      cases List.mem_cons.mp hrest with
      | inl heq =>
          rw [heq]
          exact he'
      | inr hback => exact h x (List.mem_append_right _ (List.mem_cons_of_mem _ hback))

theorem again_invariant {front back : List FeedbackEntry} {e : FeedbackEntry} (now : ℤ)
    (h : FeedbackInvariant T (front ++ e :: back)) :
    FeedbackInvariant T (front ++ e.again now :: back) where
  few := by
    have hfew := h.few
    simp only [List.length_append, List.length_cons] at hfew ⊢
    exact hfew
  counted := forall_replace h.counted (Nat.le_add_left 1 e.count)
  scored := by
    apply forall_replace h.scored
    have hpos := (h.scored e (List.mem_append_right _ List.mem_cons_self)).1
    exact ⟨lt_min (by linarith) one_pos, min_le_right _ _⟩
  apart := by
    apply apart_of_patterns _ h.apart
    simp only [List.map_append, List.map_cons]
    exact List.Sublist.refl _

theorem first_invariant {evicted kept : List FeedbackEntry} {text : Text} (now : ℤ)
    (hlower : LawfulLower T.toTextMethods) (hroom : kept.length < maxKeep)
    (hnone : ∀ e ∈ evicted ++ kept, ¬ SimilarTo T text e)
    (h : FeedbackInvariant T (evicted ++ kept)) :
    FeedbackInvariant T (kept ++ [FeedbackEntry.first (strip T text) now]) where
  few := by
    rw [List.length_append]
    exact hroom
  counted := by
    intro e he
    cases List.mem_append.mp he with
    | inl hkept => exact h.counted e (List.mem_append_right _ hkept)
    | inr hlast => exact (congrArg FeedbackEntry.count (List.mem_singleton.mp hlast)).ge
  scored := by
    intro e he
    cases List.mem_append.mp he with
    | inl hkept => exact h.scored e (List.mem_append_right _ hkept)
    | inr hlast =>
        rw [List.mem_singleton.mp hlast]
        norm_num [FeedbackEntry.first]
  apart := by
    have hkept := (List.pairwise_append.mp h.apart).2.1
    refine List.pairwise_append.mpr ⟨hkept, List.pairwise_singleton _ _, ?_⟩
    intro e he e' he'
    have hfar := not_lt.mp (hnone e (List.mem_append_right _ he))
    rw [List.mem_singleton.mp he', Apart, FeedbackEntry.first, normalize_strip hlower]
    exact hfar

theorem findIdx_split {p : FeedbackEntry → Bool} {i : ℕ} (hfind : entries.findIdx? p = some i)
    (f : FeedbackEntry → FeedbackEntry) :
    ∃ front e back, entries = front ++ e :: back ∧ (∀ e ∈ front, p e = false) ∧ p e = true ∧
      entries.modify i f = front ++ f e :: back := by
  obtain ⟨hi, hfound, hbefore⟩ := List.findIdx?_eq_some_iff_getElem.mp hfind
  refine ⟨entries.take i, entries[i], entries.drop (i + 1), ?_, ?_, hfound,
    List.modify_eq_take_cons_drop hi⟩
  · rw [List.getElem_cons_drop, List.take_append_drop]
  · intro e he
    obtain ⟨j, hj, rfl⟩ := List.mem_take_iff_getElem.mp he
    exact Bool.eq_false_iff.mpr (hbefore j (lt_of_lt_of_le hj (min_le_left _ _)))

theorem rtake_concat (entries : List FeedbackEntry) (e : FeedbackEntry) :
    ∃ evicted kept, entries = evicted ++ kept ∧ kept.length < maxKeep ∧
      (entries ++ [e]).rtake maxKeep = kept ++ [e] := by
  refine ⟨entries.take (entries.length + 1 - maxKeep), entries.drop (entries.length + 1 - maxKeep),
    (List.take_append_drop _ _).symm, ?_, ?_⟩
  · rw [List.length_drop, maxKeep]
    omega
  · have hle : entries.length + 1 - maxKeep ≤ entries.length := by
      rw [maxKeep]
      omega
    rw [List.rtake, List.length_append, List.length_singleton, List.drop_append_of_le_length hle]

theorem record_spec {text : Text} (now : ℤ) (hlower : LawfulLower T.toTextMethods)
    (hlen : text.length ≤ maxFeedbackLen) (hnorm : normalize T text ≠ [])
    (h : FeedbackInvariant T entries) :
    FeedbackInvariant T (feedbackStep T entries (.record text now)) ∧
      CountedOnce T text entries (feedbackStep T entries (.record text now)) := by
  rw [feedbackStep, recordFeedback, if_neg (not_lt.mpr hlen), if_neg hnorm]
  cases hfind : entries.findIdx? fun e => clusterThreshold <
      jaccard T.toTextMethods (normalize T e.pattern) (normalize T text) with
  | some i =>
      obtain ⟨front, e, back, hsplit, hfront, hsimilar, hmodify⟩ :=
        findIdx_split hfind (·.again now)
      show FeedbackInvariant T (entries.modify i (·.again now)) ∧
        CountedOnce T text entries (entries.modify i (·.again now))
      rw [hmodify, hsplit]
      rw [hsplit] at h
      have hnear : SimilarTo T text e := of_decide_eq_true hsimilar
      refine ⟨again_invariant now h, CountedOnce.again ?_ hnear rfl rfl⟩
      intro e he hnear
      exact Bool.false_ne_true ((hfront e he).symm.trans (decide_eq_true hnear))
  | none =>
      have hnone : ∀ e ∈ entries, ¬ SimilarTo T text e := by
        intro e he hnear
        exact Bool.false_ne_true
          ((List.findIdx?_eq_none_iff.mp hfind e he).symm.trans (decide_eq_true hnear))
      let latest := (entries ++ [FeedbackEntry.first (strip T text) now]).rtake maxKeep
      show FeedbackInvariant T latest ∧ CountedOnce T text entries latest
      obtain ⟨evicted, kept, hsplit, hroom, hlatest⟩ :=
        rtake_concat entries (FeedbackEntry.first (strip T text) now)
      rw [show latest = _ from hlatest, hsplit]
      rw [hsplit] at h hnone
      exact ⟨first_invariant now hlower hroom hnone h, CountedOnce.first hnone rfl rfl⟩

theorem feedbackStep_invariant (hlower : LawfulLower T.toTextMethods) (call : FeedbackCall)
    (h : FeedbackInvariant T entries) : FeedbackInvariant T (feedbackStep T entries call) := by
  cases call with
  | record text now =>
      by_cases hlen : text.length ≤ maxFeedbackLen
      · by_cases hnorm : normalize T text = []
        · rw [feedbackStep, recordFeedback, if_neg (not_lt.mpr hlen), if_pos hnorm]
          exact h
        · exact (record_spec now hlower hlen hnorm h).1
      · rw [feedbackStep, recordFeedback, if_pos (not_le.mp hlen)]
        exact h
  | runDecay now => exact runDecay_invariant now h

theorem empty_invariant : FeedbackInvariant T [] where
  few := Nat.zero_le _
  counted := fun _ he => absurd he List.not_mem_nil
  scored := fun _ he => absurd he List.not_mem_nil
  apart := List.Pairwise.nil

end Steps

section Runs
variable {T : FeedbackText}

/-- Every run of calls keeps the clusters of a scope few, counted, scored and apart, and every
text that `record` takes counts once. -/
theorem feedback_store_invariant (hlower : LawfulLower T.toTextMethods)
    (calls : List FeedbackCall) :
    FeedbackInvariant T (exec (feedbackStep T) [] calls) ∧
      ∀ text now, text.length ≤ maxFeedbackLen → normalize T text ≠ [] →
        CountedOnce T text (exec (feedbackStep T) [] calls)
          (exec (feedbackStep T) [] (calls ++ [.record text now])) := by
  have hrun : Always (feedbackStep T) (FeedbackInvariant T) [] calls :=
    always_of_step (fun _ call h => feedbackStep_invariant hlower call h) empty_invariant calls
  refine ⟨hrun.last, ?_⟩
  intro text now hlen hnorm
  rw [exec_append]
  exact (record_spec now hlower hlen hnorm hrun.last).2

/-- ASCII letters, whose words are made of letters and digits. -/
def asciiFeedback : FeedbackText where
  toTextMethods := asciiText
  isWord ch := ch.isAlphanum || ch = '_'

theorem asciiText_lawfulLower : LawfulLower asciiText where
  between := by
    have hblanks : ∀ text : Text, (∀ ch ∈ text, asciiText.isspace ch) →
        asciiText.lower text = text := by
      intro text htext
      refine (List.map_congr_left fun ch hch => ?_).trans (List.map_id text)
      rw [of_decide_eq_true (htext ch hch)]
      rfl
    intro before text after hbefore hafter
    have hmap : asciiText.lower (before ++ text ++ after) =
        asciiText.lower before ++ asciiText.lower text ++ asciiText.lower after := by
      simp only [asciiText, List.map_append]
    rw [hmap, hblanks before hbefore, hblanks after hafter]

/-- Two texts that are apart and one that is similar to the first, with a decay after them. -/
theorem feedback_store_three :
    FeedbackInvariant asciiFeedback (exec (feedbackStep asciiFeedback) []
      [.record "Missing error handling".toList 0, .record "No tests".toList 1,
        .record " missing error handling! ".toList 2, .runDecay 3]) ∧
      CountedOnce asciiFeedback "add tests".toList
        (exec (feedbackStep asciiFeedback) []
          [.record "Missing error handling".toList 0, .record "No tests".toList 1,
            .record " missing error handling! ".toList 2, .runDecay 3])
        (exec (feedbackStep asciiFeedback) []
          [.record "Missing error handling".toList 0, .record "No tests".toList 1,
            .record " missing error handling! ".toList 2, .runDecay 3,
            .record "add tests".toList 4]) := by
  have h := feedback_store_invariant (T := asciiFeedback) asciiText_lawfulLower
    [.record "Missing error handling".toList 0, .record "No tests".toList 1,
      .record " missing error handling! ".toList 2, .runDecay 3]
  exact ⟨h.1, h.2 "add tests".toList 4 (by decide) (by decide)⟩

end Runs

end Engramia.Evaluation
