import Engramia.Library.Ranking
import Engramia.Library.Rounding
import Engramia.Patterns.EvalHistory
import Engramia.Recall.Grouping
import Mathlib.Data.Rat.Floor

/-!
Recall. The candidates of a search are read and become matches on one of two paths: weighed by
their evaluations and ranked anew, or plainly in the order of the search. Without an embedding
the records are ranked by the words of their tasks. Then recency may rank the matches once
more, and groups and the limit leave some of them.

Numbers are rationals, and powers are any function. A search answers with no more results than
it is asked for, under distinct keys in the order of their similarity, or raises. Reuse marks and
the events of a recall are left out, as they come after its matches.
-/
namespace Engramia.Recall
open Engramia.Library Engramia.Storage Engramia.Patterns

inductive RecallError where
  | provider
  | validation
  | other
deriving DecidableEq

/-- What recall takes from elsewhere: the words of a text, the numbers of a record, `**` and the
clock. -/
structure RecallContext where
  text : TextMethods
  numbers : PatternMath
  power : ℚ → ℚ → ℚ
  now : ℚ

/-- What recall reads: the records below `patterns`, what embedding the task and searching for
it comes to, by the number of results, and the evaluations. -/
structure RecallStore where
  keys : List Text
  load : Text → Option (Json Text)
  search : ℕ → Except RecallError (List (Text × ℚ))
  evals : List EvalRecord
  keys_nodup : keys.Nodup
  search_nodup : ∀ n results, search n = .ok results → (results.map Prod.fst).Nodup
  search_ranked : ∀ n results, search n = .ok results → Ranked Prod.snd results
  search_length : ∀ n results, search n = .ok results → results.length ≤ n
  evals_bounded : ∀ e ∈ evals, 0 ≤ e.overall ∧ e.overall ≤ 10

structure RecallQuery where
  task : Text
  limit : ℕ
  deduplicate : Bool
  evalWeighted : Bool
  recencyWeight : ℚ
  recencyHalfLifeDays : ℚ

/-- A score of at most one with six decimals. -/
def unitScore (x : ℚ) : ℚ := roundTo 6 (min (max x 0) 1)

theorem unitScore_bounds (x : ℚ) : 0 ≤ unitScore x ∧ unitScore x ≤ 1 :=
  ⟨le_roundTo (hasDecimals_zero 6) (le_min (le_max_right _ _) zero_le_one),
    roundTo_le (hasDecimals_one 6) (min_le_right _ _)⟩

theorem unitScore_mono {x y : ℚ} (h : x ≤ y) : unitScore x ≤ unitScore y :=
  roundTo_mono 6 (min_le_min_right 1 (max_le_max_right 0 h))

theorem jaccard_bounds (T : TextMethods) (a b : Text) : 0 ≤ jaccard T a b ∧ jaccard T a b ≤ 1 := by
  rw [jaccard]
  split
  · exact ⟨le_refl _, zero_le_one⟩
  · constructor
    · exact div_nonneg (Nat.cast_nonneg _) (Nat.cast_nonneg _)
    · apply div_le_one_of_le₀ _ (Nat.cast_nonneg _)
      exact Nat.cast_le.mpr (Finset.card_le_card (Finset.inter_subset_left.trans
        Finset.subset_union_left))

/-- The score that a match is ranked by. -/
def Match.rankingScore (m : Match) : ℚ := m.effectiveScore.getD m.similarity

section Recall
variable (C : RecallContext) (s : RecallStore)

/-- `Pattern.model_validate` of what is loaded: `none` without a record, `some none` where it
raises. -/
def loadPattern (key : Text) : Option (Option PatternDoc) :=
  (s.load key).map (validate C.numbers C.now)

def multiplier (task key : Text) : ℚ := evalMultiplier C.text key task s.evals

/-- The match of a candidate that is weighed, with its unrounded score. -/
def weighted (task : Text) (x : Text × ℚ) : Option (ℚ × Match) :=
  match loadPattern C s x.1 with
  | some (some pattern) =>
      let effective := x.2 * multiplier C s task x.1
      let simClamped := min (max x.2 0) 1
      some (effective, {
        pattern := pattern
        similarity := unitScore x.2
        reuseTier := reuseTier simClamped
        patternKey := x.1
        effectiveScore := some (unitScore effective)
        similarity_bounds := unitScore_bounds _
        effective_bounds := fun _ he => Option.some.inj he ▸ unitScore_bounds _ })
  | _ => none

/-- `PatternMatcher.find` -/
def find (task : Text) (limit fetchMultiplier : ℕ) : Except RecallError (List Match) := do
  let rawResults ← s.search (limit * max 1 fetchMultiplier)
  pure (((sortedDesc Prod.fst (rawResults.filterMap (weighted C s task))).take limit).map Prod.snd)

/-- `Match(...)` on the plain path, which raises for a negative similarity. -/
def plainMatch (pattern : PatternDoc) (key : Text) (similarity : ℚ) : Except RecallError Match :=
  if h : 0 ≤ similarity then
    .ok {
      pattern := pattern
      similarity := min similarity 1
      reuseTier := reuseTier similarity
      patternKey := key
      effectiveScore := none
      similarity_bounds := ⟨le_min h zero_le_one, min_le_right _ _⟩
      effective_bounds := fun _ he => nomatch he }
  else .error .validation

/-- The loop of the plain path over the results of the search. -/
def plainMatches : List (Text × ℚ) → Except RecallError (List Match)
  | [] => .ok []
  | (key, similarity) :: results =>
      match loadPattern C s key with
      | none => plainMatches results
      | some none => .error .validation
      | some (some pattern) => do
          let m ← plainMatch pattern key similarity
          pure (m :: (← plainMatches results))

/-- The match of a record for its words, when it has any in common with the task. -/
def keywordMatch (task key : Text) : Option Match :=
  match loadPattern C s key with
  | some (some pattern) =>
      let score := jaccard C.text task pattern.task
      if 0 < score then
        some {
          pattern := pattern
          similarity := score
          reuseTier := reuseTier score
          patternKey := key
          effectiveScore := none
          similarity_bounds := jaccard_bounds _ _ _
          effective_bounds := fun _ he => nomatch he }
      else none
  | _ => none

/-- `_keyword_fallback` -/
def keywordFallback (task : Text) (limit : ℕ) : List Match :=
  (sortedDesc Match.similarity (s.keys.filterMap (keywordMatch C s task))).take limit

def secondsPerDay : ℚ := 86400

def recencyWeighted (weight halfLifeDays : ℚ) (m : Match) : Match :=
  let age := max 0 (C.now - m.pattern.timestamp)
  let recencyFactor := C.power (1 / 2) (age / (halfLifeDays * secondsPerDay))
  let blended := m.rankingScore * C.power recencyFactor weight
  { m with
    effectiveScore := some (unitScore blended)
    effective_bounds := fun _ he => Option.some.inj he ▸ unitScore_bounds _ }

/-- `_apply_recency_weight` -/
def applyRecencyWeight (weight halfLifeDays : ℚ) (ms : List Match) : List Match :=
  if weight ≤ 0 then ms
  else
    sortedDesc (fun m => m.effectiveScore.getD 0) (ms.map (recencyWeighted C weight halfLifeDays))

def dedupFetchMultiplier : ℕ := 3

/-- The matches of the path that a query takes, before it falls back. -/
def searched (q : RecallQuery) (fetchMultiplier : ℕ) : Except RecallError (List Match) :=
  if q.evalWeighted then find C s q.task q.limit fetchMultiplier
  else do plainMatches C s (← s.search (q.limit * fetchMultiplier))

def RecallQuery.fetchMultiplier (q : RecallQuery) : ℕ :=
  if q.deduplicate then dedupFetchMultiplier else 1

def found (q : RecallQuery) : Except RecallError (List Match) :=
  match searched C s q q.fetchMultiplier with
  | .error .provider => .ok (keywordFallback C s q.task (q.limit * q.fetchMultiplier))
  | result => result

/-- What recall makes of the matches of its path. -/
def arranged (q : RecallQuery) (ms : List Match) : List Match :=
  let weighed :=
    if 0 < q.recencyWeight then applyRecencyWeight C q.recencyWeight q.recencyHalfLifeDays ms
    else ms
  if q.deduplicate then deduplicateMatches C.text weighed else weighed

/-- `RecallService.recall` -/
def RecallService.recall (q : RecallQuery) : Except RecallError (List Match) := do
  pure ((arranged C q (← found C s q)).take q.limit)

end Recall

section Sample

def plainContext : RecallContext where
  text := asciiText
  numbers := plainMath
  power x _ := x
  now := 0

def taskRecord (task : String) : Json Text :=
  .obj [(taskField, .str task.toList), (designField, .obj [])]

theorem solo_nodup :
    ([("a".toList, taskRecord "sort a list")].map Prod.fst).Nodup := by
  decide

/-- Some records without evaluations, and a ranking that every search answers from. -/
def rankedStore (records : List (Text × Json Text)) (ranking : List (Text × ℚ))
    (hrecords : (records.map Prod.fst).Nodup) (hkeys : (ranking.map Prod.fst).Nodup)
    (hranked : Ranked Prod.snd ranking) : RecallStore where
  keys := records.map Prod.fst
  load key := records.lookup key
  search n := .ok (ranking.take n)
  evals := []
  keys_nodup := hrecords
  search_nodup n results h := by
    cases h
    exact List.Nodup.sublist ((List.take_sublist _ _).map _) hkeys
  search_ranked n results h := by
    cases h
    exact hranked.sublist (List.take_sublist _ _)
  search_length n results h := by
    cases h
    exact List.length_take_le _ _
  evals_bounded e he := absurd he List.not_mem_nil

end Sample

end Engramia.Recall
