import Engramia.Library.Percentile
import Engramia.Storage.Paths
import Mathlib.Algebra.BigOperators.Group.List.Lemmas
import Mathlib.Data.Rat.Floor

/-!
The rollup of the events of a scope: reuse of the recalls, scores of what was learned and a
composite of both. Numbers are exact, and every quotient and index that could raise is computed
as one that may.

The averages and percentiles are rounded to four decimals, so they lie between the smallest and
the largest score up to that rounding.
-/
namespace Engramia.Analytics
open Engramia.Library Engramia.Storage

section Definitions

inductive EventKind where
  | learn
  | recall
deriving DecidableEq

inductive ReuseTier where
  | duplicate
  | adapt
  | fresh
deriving DecidableEq

/-- What a rollup reads of an event. -/
structure ROIEvent where
  kind : EventKind
  ts : ℚ
  evalScore : Option ℚ
  similarity : Option ℚ
  reuseTier : Option ReuseTier
  scopeTenant : Text
  scopeProject : Text
deriving DecidableEq

structure RecallOutcome where
  total : ℕ
  duplicateHits : ℕ
  adaptHits : ℕ
  freshMisses : ℕ
  reuseRate : ℚ
  avgSimilarity : ℚ
deriving DecidableEq

structure LearnSummary where
  total : ℕ
  avgEvalScore : ℚ
  p50EvalScore : ℚ
  p90EvalScore : ℚ
deriving DecidableEq

inductive Window where
  | hourly
  | daily
  | weekly
deriving DecidableEq

/-- The texts of instants name whole seconds, which stand for them. -/
structure ROIRollup where
  tenantId : Text
  projectId : Text
  window : Window
  windowStart : ℤ
  «recall» : RecallOutcome
  learn : LearnSummary
  roiScore : ℚ
  computedAt : ℤ
  roiBounds : 0 ≤ roiScore ∧ roiScore ≤ 10
deriving DecidableEq

/-- `x / y`, which raises for a zero. -/
def divide (x y : ℚ) : Option ℚ := if y = 0 then none else some (x / y)

/-- `round(sum(xs) / len(xs), 4) if xs else 0.0` -/
def average (xs : List ℚ) : Option ℚ :=
  if xs = [] then some 0 else (divide xs.sum xs.length).map (roundTo 4)

def recallOutcome (recallEvents : List ROIEvent) : Option RecallOutcome := do
  let duplicate := recallEvents.countP (·.reuseTier = some .duplicate)
  let adapt := recallEvents.countP (·.reuseTier = some .adapt)
  let fresh := recallEvents.countP (·.reuseTier = some .fresh)
  let totalRecall := recallEvents.length
  let avgSim ← average (recallEvents.filterMap (·.similarity))
  let reuseRate ←
    if 0 < totalRecall then
      (divide ((duplicate + adapt : ℕ) : ℚ) totalRecall).map (roundTo 4)
    else some 0
  return {
    total := totalRecall
    duplicateHits := duplicate
    adaptHits := adapt
    freshMisses := fresh
    reuseRate := reuseRate
    avgSimilarity := avgSim }

def learnScores (learnEvents : List ROIEvent) : List ℚ :=
  learnEvents.filterMap (·.evalScore)

def learnSummary (learnEvents : List ROIEvent) : Option LearnSummary := do
  let scores := learnScores learnEvents
  if scores = [] then
    return {
      total := learnEvents.length
      avgEvalScore := 0
      p50EvalScore := 0
      p90EvalScore := 0 }
  else
    let avgEval ← average scores
    let sortedS := ascending scores
    let p50 ← medianOf sortedS
    let p90 ← sortedS[rankIndex (9 / 10 : ℚ) sortedS.length]?
    return {
      total := learnEvents.length
      avgEvalScore := avgEval
      p50EvalScore := roundTo 4 p50
      p90EvalScore := roundTo 4 p90 }

def weightReuse : ℚ := 6 / 10

def weightEval : ℚ := 4 / 10

/-- The composite score before it is clamped. -/
def composite (reuseRate avgEval : ℚ) : ℚ :=
  roundTo 4 (weightReuse * reuseRate * 10 + weightEval * avgEval)

def clampScore (roi : ℚ) : ℚ := min 10 (max 0 roi)

theorem clampScore_bounds (roi : ℚ) : 0 ≤ clampScore roi ∧ clampScore roi ≤ 10 :=
  ⟨le_min (by norm_num) (le_max_left _ _), min_le_left _ _⟩

def learned (events : List ROIEvent) : List ROIEvent := events.filter (·.kind = .learn)

def recalled (events : List ROIEvent) : List ROIEvent := events.filter (·.kind = .recall)

/-- `_compute_rollup` -/
def computeRollup (tenantId projectId : Text) (window : Window) (windowStart computedAt : ℤ)
    (events : List ROIEvent) : Option ROIRollup := do
  let outcome ← recallOutcome (recalled events)
  let learn ← learnSummary (learned events)
  return {
    tenantId := tenantId
    projectId := projectId
    window := window
    windowStart := windowStart
    «recall» := outcome
    learn := learn
    roiScore := clampScore (composite outcome.reuseRate learn.avgEvalScore)
    computedAt := computedAt
    roiBounds := clampScore_bounds _ }

/-- Between the smallest and the largest of some scores, rounded to four decimals. -/
def WithinRounded (scores : List ℚ) (x : ℚ) : Prop :=
  ∀ lo ∈ scores, ∀ hi ∈ scores, Bounds scores lo hi → roundTo 4 lo ≤ x ∧ x ≤ roundTo 4 hi

/-- What holds of the numbers of a rollup. -/
structure SoundNumbers (scores : List ℚ) (r : ROIRollup) : Prop where
  average : WithinRounded scores r.learn.avgEvalScore
  p50 : WithinRounded scores r.learn.p50EvalScore
  p90 : WithinRounded scores r.learn.p90EvalScore
  ordered : r.learn.p50EvalScore ≤ r.learn.p90EvalScore
  reuse : 0 ≤ r.recall.reuseRate ∧ r.recall.reuseRate ≤ 1
  unclamped : 0 ≤ composite r.recall.reuseRate r.learn.avgEvalScore ∧
    composite r.recall.reuseRate r.learn.avgEvalScore ≤ 10
  roi : r.roiScore = composite r.recall.reuseRate r.learn.avgEvalScore

end Definitions

section Numbers
variable {xs : List ℚ} {events events' : List ROIEvent}

theorem divide_length {α : Type} {as : List α} (h : as ≠ []) (x : ℚ) :
    divide x as.length = some (x / as.length) := by
  have hpos : (as.length : ℚ) ≠ 0 := by
    rw [Nat.cast_ne_zero]
    exact (List.length_pos_iff.mpr h).ne'
  rw [divide, if_neg hpos]

theorem average_spec (h : xs ≠ []) :
    ∃ m, average xs = some m ∧ ∀ lo hi, Bounds xs lo hi → roundTo 4 lo ≤ m ∧ m ≤ roundTo 4 hi := by
  refine ⟨roundTo 4 (xs.sum / xs.length), ?_, ?_⟩
  · rw [average, if_neg h, divide_length h]
    rfl
  · intro lo hi hbounds
    obtain ⟨hlow, hhigh⟩ := hbounds.mean h
    exact ⟨roundTo_mono 4 hlow, roundTo_mono 4 hhigh⟩

theorem exists_average (xs : List ℚ) : ∃ m, average xs = some m := by
  by_cases h : xs = []
  · exact ⟨0, by rw [average, if_pos h]⟩
  · obtain ⟨m, hm, _⟩ := average_spec h
    exact ⟨m, hm⟩

theorem average_congr {ys : List ℚ} (h : xs.Perm ys) : average xs = average ys := by
  have hnil : xs = [] ↔ ys = [] := by
    rw [← List.length_eq_zero_iff, ← List.length_eq_zero_iff, h.length_eq]
  simp only [average, hnil, h.sum_eq, h.length_eq]

theorem reused_le (events : List ROIEvent) :
    events.countP (·.reuseTier = some .duplicate) + events.countP (·.reuseTier = some .adapt) ≤
      events.length := by
  induction events with
  | nil => exact Nat.le_refl 0
  | cons e events ih =>
      rw [List.countP_cons, List.countP_cons, List.length_cons]
      by_cases hduplicate : e.reuseTier = some .duplicate
      · simp only [hduplicate]
        simp
        omega
      · by_cases hadapt : e.reuseTier = some .adapt
        · simp only [hadapt]
          simp
          omega
        · simp only [hduplicate, hadapt, decide_false]
          simp
          omega

theorem recallOutcome_spec (events : List ROIEvent) :
    ∃ r, recallOutcome events = some r ∧ r.total = events.length ∧ 0 ≤ r.reuseRate ∧
      r.reuseRate ≤ 1 := by
  obtain ⟨avgSim, havg⟩ := exists_average (events.filterMap (·.similarity))
  have hreused := reused_le events
  rw [recallOutcome]
  simp only [havg]
  by_cases hpos : 0 < events.length
  · have hevents : events ≠ [] := List.length_pos_iff.mp hpos
    simp only [if_pos hpos, divide_length hevents]
    refine ⟨_, rfl, rfl, ?_, ?_⟩
    · apply le_roundTo (hasDecimals_zero 4)
      positivity
    · apply roundTo_le (hasDecimals_one 4)
      rw [div_le_one (by exact_mod_cast hpos)]
      exact_mod_cast hreused
  · simp only [if_neg hpos]
    exact ⟨_, rfl, rfl, le_refl 0, zero_le_one⟩

theorem learnSummary_empty (h : learnScores events = []) :
    learnSummary events = some
      { total := events.length, avgEvalScore := 0, p50EvalScore := 0, p90EvalScore := 0 } := by
  simp only [learnSummary, h, if_true]
  rfl

theorem percentile_spec (h : xs ≠ []) :
    ∃ m p, medianOf (ascending xs) = some m ∧
      (ascending xs)[rankIndex (9 / 10 : ℚ) (ascending xs).length]? = some p ∧ m ≤ p ∧
      ∀ lo hi, Bounds xs lo hi → (lo ≤ m ∧ m ≤ hi) ∧ lo ≤ p ∧ p ≤ hi := by
  obtain ⟨m, hm, hbounds, hlater⟩ := medianOf_spec h
  have hpos : 0 < (ascending xs).length := by
    rw [length_ascending]
    exact List.length_pos_iff.mpr h
  have hrank := rankIndex_lt (p := (9 / 10 : ℚ)) (by norm_num) hpos
  have hmiddle := middle_le_rankIndex (p := (9 / 10 : ℚ)) (by norm_num) hpos
  refine ⟨m, _, hm, List.getElem?_eq_getElem hrank, hlater _ hrank hmiddle, ?_⟩
  intro lo hi hlohi
  exact ⟨hbounds lo hi hlohi, hlohi.ascending.getElem hrank⟩

theorem learnSummary_spec (h : learnScores events ≠ []) :
    ∃ l, learnSummary events = some l ∧ l.total = events.length ∧
      l.p50EvalScore ≤ l.p90EvalScore ∧
      ∀ lo hi, Bounds (learnScores events) lo hi →
        (roundTo 4 lo ≤ l.avgEvalScore ∧ l.avgEvalScore ≤ roundTo 4 hi) ∧
        (roundTo 4 lo ≤ l.p50EvalScore ∧ l.p50EvalScore ≤ roundTo 4 hi) ∧
        roundTo 4 lo ≤ l.p90EvalScore ∧ l.p90EvalScore ≤ roundTo 4 hi := by
  obtain ⟨avg, havg, havgBounds⟩ := average_spec h
  obtain ⟨m, p, hm, hp, hle, hbounds⟩ := percentile_spec h
  rw [learnSummary]
  simp only [if_neg h, havg, hm, hp]
  refine ⟨_, rfl, rfl, roundTo_mono 4 hle, ?_⟩
  intro lo hi hlohi
  obtain ⟨hmedian, hrank⟩ := hbounds lo hi hlohi
  exact ⟨havgBounds lo hi hlohi, ⟨roundTo_mono 4 hmedian.1, roundTo_mono 4 hmedian.2⟩,
    roundTo_mono 4 hrank.1, roundTo_mono 4 hrank.2⟩

theorem composite_bounds {rate avg : ℚ} (hrate : 0 ≤ rate ∧ rate ≤ 1) (havg : 0 ≤ avg ∧ avg ≤ 10) :
    0 ≤ composite rate avg ∧ composite rate avg ≤ 10 := by
  have hten : HasDecimals 4 (10 : ℚ) := ⟨100000, by norm_num⟩
  rw [composite, weightReuse, weightEval]
  constructor
  · apply le_roundTo (hasDecimals_zero 4)
    linarith [hrate.1, havg.1]
  · apply roundTo_le hten
    linarith [hrate.2, havg.2]

theorem clampScore_of_bounds {x : ℚ} (h : 0 ≤ x ∧ x ≤ 10) : clampScore x = x := by
  rw [clampScore, max_eq_right h.1, min_eq_right h.2]

theorem recallOutcome_congr (h : events.Perm events') :
    recallOutcome events = recallOutcome events' := by
  have hsims := h.filterMap (·.similarity)
  simp only [recallOutcome, h.countP_eq, h.length_eq, average_congr hsims]

theorem learnSummary_congr (h : events.Perm events') :
    learnSummary events = learnSummary events' := by
  have hscores : (learnScores events).Perm (learnScores events') := h.filterMap _
  have hnil : learnScores events = [] ↔ learnScores events' = [] := by
    rw [← List.length_eq_zero_iff, ← List.length_eq_zero_iff, hscores.length_eq]
  simp only [learnSummary, hnil, average_congr hscores, ascending_congr hscores, h.length_eq]

theorem computeRollup_congr (tenantId projectId : Text) (window : Window)
    (windowStart computedAt : ℤ) (h : events.Perm events') :
    computeRollup tenantId projectId window windowStart computedAt events =
      computeRollup tenantId projectId window windowStart computedAt events' := by
  have hrecall : recallOutcome (recalled events) = recallOutcome (recalled events') :=
    recallOutcome_congr (h.filter _)
  have hlearn : learnSummary (learned events) = learnSummary (learned events') :=
    learnSummary_congr (h.filter _)
  rw [computeRollup, computeRollup, hrecall, hlearn]

theorem avgEvalScore_bounds (hscores : Bounds (learnScores events) 0 10) {l : LearnSummary}
    (hl : learnSummary events = some l) : 0 ≤ l.avgEvalScore ∧ l.avgEvalScore ≤ 10 := by
  by_cases hnil : learnScores events = []
  · rw [learnSummary_empty hnil] at hl
    cases hl
    norm_num
  · obtain ⟨l', hl', _, _, hbounds⟩ := learnSummary_spec hnil
    have hsame : some l' = some l := hl'.symm.trans hl
    cases hsame
    have hten : HasDecimals 4 (10 : ℚ) := ⟨100000, by norm_num⟩
    have havg := (hbounds 0 10 hscores).1
    rwa [(hasDecimals_zero 4).roundTo_eq, hten.roundTo_eq] at havg

end Numbers

/-- A rollup of scores from zero to ten never raises, does not depend on the order of the events
and has sound numbers. -/
theorem rollup_arithmetic (tenantId projectId : Text) (window : Window)
    (windowStart computedAt : ℤ) (events : List ROIEvent)
    (hscores : ∀ e ∈ events, ∀ s, e.evalScore = some s → 0 ≤ s ∧ s ≤ 10) :
    ∃ r, computeRollup tenantId projectId window windowStart computedAt events = some r ∧
      (∀ events', events.Perm events' →
        computeRollup tenantId projectId window windowStart computedAt events' = some r) ∧
      SoundNumbers (learnScores (learned events)) r := by
  have hlearned : Bounds (learnScores (learned events)) 0 10 := by
    intro s hs
    obtain ⟨e, he, hes⟩ := List.mem_filterMap.mp hs
    exact hscores e (List.mem_filter.mp he).1 s hes
  obtain ⟨outcome, hrecall, _, hreuse⟩ := recallOutcome_spec (recalled events)
  have hexists : ∃ l, learnSummary (learned events) = some l ∧ l.p50EvalScore ≤ l.p90EvalScore ∧
      WithinRounded (learnScores (learned events)) l.avgEvalScore ∧
      WithinRounded (learnScores (learned events)) l.p50EvalScore ∧
      WithinRounded (learnScores (learned events)) l.p90EvalScore := by
    by_cases hnil : learnScores (learned events) = []
    · have hnone : ∀ x, WithinRounded (learnScores (learned events)) x := by
        intro x lo hlo
        rw [hnil] at hlo
        cases hlo
      exact ⟨_, learnSummary_empty hnil, le_refl 0, hnone _, hnone _, hnone _⟩
    · obtain ⟨l, hl, _, hordered, hbounds⟩ := learnSummary_spec hnil
      refine ⟨l, hl, hordered, ?_, ?_, ?_⟩
      · exact fun lo _ hi _ h => (hbounds lo hi h).1
      · exact fun lo _ hi _ h => (hbounds lo hi h).2.1
      · exact fun lo _ hi _ h => (hbounds lo hi h).2.2
  obtain ⟨learn, hlearn, hordered, havg, hp50, hp90⟩ := hexists
  have hunclamped := composite_bounds hreuse (avgEvalScore_bounds hlearned hlearn)
  refine ⟨_, by rw [computeRollup, hrecall, hlearn]; rfl, ?_, ?_⟩
  · intro events' hperm
    rw [← computeRollup_congr tenantId projectId window windowStart computedAt hperm,
      computeRollup, hrecall, hlearn]
    rfl
  · exact ⟨havg, hp50, hp90, hordered, hreuse, hunclamped, clampScore_of_bounds hunclamped⟩

section Sample

/-- A pattern learned with a score of more than four decimals. -/
def learnedSeven : ROIEvent where
  kind := .learn
  ts := 1772359200
  evalScore := some (700006 / 100000)
  similarity := none
  reuseTier := none
  scopeTenant := []
  scopeProject := []

theorem learnedSeven_score :
    ∀ e ∈ [learnedSeven], ∀ s, e.evalScore = some s → 0 ≤ s ∧ s ≤ 10 := by
  intro e he s hs
  rw [List.mem_singleton.mp he] at hs
  cases hs
  norm_num

/-- Two patterns learned, a recall that reuses one of them and a recall that finds nothing. -/
def mixedEvents : List ROIEvent :=
  [learnedSeven,
    { learnedSeven with
      kind := .recall
      evalScore := none
      similarity := some (9 / 10)
      reuseTier := some .adapt },
    { learnedSeven with evalScore := some 4 },
    { learnedSeven with
      kind := .recall
      evalScore := none
      reuseTier := some .fresh }]

theorem mixedEvents_scores :
    ∀ e ∈ mixedEvents, ∀ s, e.evalScore = some s → 0 ≤ s ∧ s ≤ 10 := by
  have hscores : mixedEvents.filterMap ROIEvent.evalScore = [700006 / 100000, 4] := rfl
  intro e he s hs
  have hmem : s ∈ mixedEvents.filterMap ROIEvent.evalScore := List.mem_filterMap.mpr ⟨e, he, hs⟩
  rw [hscores, List.mem_cons, List.mem_singleton] at hmem
  obtain rfl | rfl := hmem <;> norm_num

theorem rollup_arithmetic_seven :
    ∃ r, computeRollup [] [] .daily 1772323200 1772359200 mixedEvents = some r ∧
      (∀ events', mixedEvents.Perm events' →
        computeRollup [] [] .daily 1772323200 1772359200 events' = some r) ∧
      SoundNumbers (learnScores (learned mixedEvents)) r :=
  rollup_arithmetic [] [] .daily 1772323200 1772359200 mixedEvents mixedEvents_scores

theorem roundTo_seven : roundTo 4 (700006 / 100000 : ℚ) = 70001 / 10000 := by
  have hround : roundHalfEven (700006 / 100000 * 10 ^ 4 : ℚ) = 70001 := by
    apply roundHalfEven_eq
    norm_num [abs_lt]
  rw [roundTo, hround]
  norm_num

/-- The average of one score is above it once it is rounded. -/
theorem average_above_score :
    ¬ ∀ events : List ROIEvent,
      (∀ e ∈ events, ∀ s, e.evalScore = some s → 0 ≤ s ∧ s ≤ 10) →
      ∀ r, computeRollup [] [] .daily 1772323200 1772359200 events = some r →
      ∀ lo ∈ learnScores (learned events), ∀ hi ∈ learnScores (learned events),
        Bounds (learnScores (learned events)) lo hi →
        lo ≤ r.learn.avgEvalScore ∧ r.learn.avgEvalScore ≤ hi := by
  intro h
  have hscores : learnScores (learned [learnedSeven]) = [700006 / 100000] := rfl
  have hbounds : Bounds (learnScores (learned [learnedSeven])) (700006 / 100000)
      (700006 / 100000) := by
    intro x hx
    rw [hscores] at hx
    rw [List.mem_singleton.mp hx]
    exact ⟨le_refl _, le_refl _⟩
  obtain ⟨outcome, hrecall, _, _⟩ := recallOutcome_spec (recalled [learnedSeven])
  obtain ⟨learn, hlearn, _, _, hlearnBounds⟩ := learnSummary_spec (by rw [hscores]; simp)
  have hlow := (hlearnBounds _ _ hbounds).1.1
  have hhigh := (h [learnedSeven] learnedSeven_score _
    (by rw [computeRollup, hrecall, hlearn]; rfl) _ (List.mem_singleton_self _) _
    (List.mem_singleton_self _) hbounds).2
  have hround : roundTo 4 (700006 / 100000 : ℚ) ≤ 700006 / 100000 := hlow.trans hhigh
  rw [roundTo_seven] at hround
  norm_num at hround

end Sample

end Engramia.Analytics
