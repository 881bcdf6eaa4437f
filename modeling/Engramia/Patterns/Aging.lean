import Mathlib.Data.Rat.Floor
import Engramia.Library.OrderedDict
import Engramia.Library.Rounding
import Engramia.Patterns.Classification

/-!
Repeated aging runs. A run multiplies the score of a pattern by the decay of its whole age and
keeps its timestamp, so a later run decays it for the same weeks again. A second run at the same
instant, or runs before the last one, leave what the claimed single run leaves exactly when the
patterns that survive it had no age before.

Scores are rationals rounded to four decimals. The results are about ages of whole weeks, where
the decay is rational too.
-/
namespace Engramia.Patterns
open Engramia.Library Engramia.Storage

section Definitions

/-- `_DECAY_PER_WEEK` -/
def decayPerWeek : ℚ := 98 / 100

/-- The patterns of a scope by their keys; `none` is a document that is no pattern. -/
abbrev AgingStore : Type := OrderedDict Text (Option PatternDoc)

/-- The decay of whole weeks and the rounding are exact. -/
structure WeeklyMath extends PatternMath where
  decayed_weeks : ∀ score (weeks : ℕ), decayed score weeks = score * decayPerWeek ^ weeks
  round_eq : ∀ score, round score = roundTo 4 score

/-- The age at an instant is a whole number of weeks. -/
def WholeWeeks (timestamp now : ℚ) : Prop := ∃ weeks : ℕ, elapsedWeeks now timestamp = weeks

variable (W : WeeklyMath)

def decayedScore (now : ℚ) (p : PatternDoc) : ℚ := decayedAt W.toPatternMath now p

/-- What a run leaves of a pattern, which is nothing when it is pruned. -/
def aged (now : ℚ) (p : PatternDoc) : Option PatternDoc :=
  if decayedScore W now p < minScore then none
  else some { p with successScore := W.round (decayedScore W now p) }

/-- The loop of `run_aging`, with the number of patterns pruned. A document that is no pattern
raises. -/
def ageEntries (now : ℚ) :
    List (Text × Option PatternDoc) → List (Text × Option PatternDoc) × Option ℕ
  | [] => ([], some 0)
  | (key, none) :: rest => ((key, none) :: rest, none)
  | (key, some p) :: rest =>
      let after := ageEntries now rest
      match aged W now p with
      | none => (after.1, after.2.map (· + 1))
      | some p' => ((key, some p') :: after.1, after.2)

theorem ageEntries_keys (now : ℚ) (entries : List (Text × Option PatternDoc)) :
    ((ageEntries W now entries).1.map Prod.fst).Sublist (entries.map Prod.fst) := by
  induction entries with
  | nil => exact List.Sublist.slnil
  | cons x rest ih =>
      obtain ⟨key, doc⟩ := x
      cases doc with
      | none => exact List.Sublist.refl _
      | some p =>
          rw [ageEntries]
          cases aged W now p with
          | none => exact ih.cons _
          | some p' => exact ih.cons_cons _

/-- `run_aging` -/
def runAging (s : AgingStore) (now : ℚ) : AgingStore where
  entries := (ageEntries W now s.entries).1
  unique := s.unique.sublist (ageEntries_keys W now s.entries)

/-- The patterns that a run comes to. -/
def reached : List (Text × Option PatternDoc) → List (Text × PatternDoc)
  | [] => []
  | (_, none) :: _ => []
  | (key, some p) :: rest => (key, p) :: reached rest

def scoreUnit : ℚ := 1 / 10 ^ 4

/-- A final document agrees with the score that the weeks since the pattern was stored leave
it, up to a unit of the fourth decimal. -/
def AgreesWith (now : ℚ) (p : PatternDoc) : Option (Option PatternDoc) → Prop
  | none => decayedScore W now p < minScore + scoreUnit
  | some none => False
  | some (some p') =>
      p' = { p with successScore := p'.successScore } ∧
        |p'.successScore - decayedScore W now p| ≤ scoreUnit ∧
        minScore ≤ decayedScore W now p + scoreUnit

end Definitions

theorem agedRow_eq (W : WeeklyMath) {now : ℚ} {key : Text} {data : Json Text} {p : PatternDoc}
    {rows : MemoryRows} : agedRow W.toPatternMath now key data p rows =
      match aged W now p with
      | none => deleteRow rows key
      | some p' => saveRow rows key (rewritten p' data) := by
  rw [agedRow, aged, decayedScore]
  split <;> rfl

section Scores
variable {W : WeeklyMath} {now : ℚ} {p p' : PatternDoc}

theorem aged_eq_some : aged W now p = some p' ↔
    minScore ≤ decayedScore W now p ∧
      p' = { p with successScore := roundTo 4 (decayedScore W now p) } := by
  rw [aged, W.round_eq]
  by_cases h : decayedScore W now p < minScore
  · rw [if_pos h]
    exact iff_of_false (fun hnone => by cases hnone) fun hle => absurd h (not_lt.mpr hle.1)
  · rw [if_neg h, Option.some.injEq]
    exact ⟨fun heq => ⟨not_lt.mp h, heq.symm⟩, fun hle => hle.2.symm⟩

theorem aged_eq_none : aged W now p = none ↔ decayedScore W now p < minScore := by
  rw [aged]
  split
  next h => exact iff_of_true rfl h
  next h => exact iff_of_false (fun hnone => by cases hnone) h

theorem minScore_decimals : HasDecimals 4 minScore := ⟨1000, by norm_num [minScore]⟩

theorem minScore_le_of_aged (h : aged W now p = some p') : minScore ≤ p'.successScore := by
  obtain ⟨hle, rfl⟩ := aged_eq_some.mp h
  exact le_roundTo minScore_decimals hle

theorem decimals_of_aged (h : aged W now p = some p') : HasDecimals 4 p'.successScore := by
  obtain ⟨_, rfl⟩ := aged_eq_some.mp h
  exact hasDecimals_roundTo 4 _

theorem timestamp_of_aged (h : aged W now p = some p') : p'.timestamp = p.timestamp := by
  obtain ⟨_, rfl⟩ := aged_eq_some.mp h
  rfl

/-- What whole weeks leave of a score, the 98 hundredths of it at most if there are any. -/
structure DecayFactor (W : WeeklyMath) (now timestamp f : ℚ) : Prop where
  pos : 0 < f
  le_one : f ≤ 1
  le_of_old : elapsedWeeks now timestamp ≠ 0 → f ≤ 98 / 100
  decayed : ∀ p : PatternDoc, p.timestamp = timestamp → decayedScore W now p = p.successScore * f

theorem exists_decayFactor (W : WeeklyMath) {timestamp : ℚ} (hweeks : WholeWeeks timestamp now) :
    ∃ f, DecayFactor W now timestamp f := by
  obtain ⟨weeks, hweeks⟩ := hweeks
  refine ⟨decayPerWeek ^ weeks, ?_, ?_, ?_, ?_⟩
  · exact pow_pos (by norm_num [decayPerWeek]) weeks
  · exact pow_le_one₀ (by norm_num [decayPerWeek]) (by norm_num [decayPerWeek])
  · intro hold
    have hne : weeks ≠ 0 := by
      intro hzero
      rw [hweeks, hzero, Nat.cast_zero] at hold
      exact hold rfl
    exact pow_le_of_le_one (by norm_num [decayPerWeek]) (by norm_num [decayPerWeek]) hne
  · intro p hstamp
    rw [decayedScore, decayedAt, hstamp, hweeks, W.decayed_weeks]

theorem score_pos_of_decayed (hweeks : WholeWeeks p.timestamp now)
    (h : minScore ≤ decayedScore W now p) : 0 < p.successScore := by
  obtain ⟨f, hf⟩ := exists_decayFactor W hweeks
  rw [hf.decayed p rfl] at h
  have hmin : (0 : ℚ) < minScore := by norm_num [minScore]
  exact pos_of_mul_pos_left (hmin.trans_le h) hf.pos.le

theorem decayedScore_of_young (h : elapsedWeeks now p.timestamp = 0) :
    decayedScore W now p = p.successScore := by
  have hzero := W.decayed_weeks p.successScore 0
  rwa [Nat.cast_zero, pow_zero, mul_one, ← h] at hzero

theorem decayedScore_le (hweeks : WholeWeeks p.timestamp now) (hpos : 0 ≤ p.successScore) :
    decayedScore W now p ≤ p.successScore := by
  obtain ⟨f, hf⟩ := exists_decayFactor W hweeks
  rw [hf.decayed p rfl]
  exact mul_le_of_le_one_right hpos hf.le_one

theorem decayedScore_le_of_old (hweeks : WholeWeeks p.timestamp now) (hpos : 0 ≤ p.successScore)
    (h : elapsedWeeks now p.timestamp ≠ 0) :
    decayedScore W now p ≤ p.successScore * (98 / 100) := by
  obtain ⟨f, hf⟩ := exists_decayFactor W hweeks
  rw [hf.decayed p rfl]
  exact mul_le_mul_of_nonneg_left (hf.le_of_old h) hpos

theorem roundTo_near (x : ℚ) : |roundTo 4 x - x| ≤ scoreUnit / 2 := by
  have h := abs_roundTo_sub_le 4 x
  rw [scoreUnit]
  linarith

theorem roundTo_le_add (x : ℚ) : roundTo 4 x ≤ x + scoreUnit / 2 := by
  have h := (abs_le.mp (roundTo_near x)).2
  linarith

theorem score_le_of_aged (hweeks : WholeWeeks p.timestamp now)
    (hdec : HasDecimals 4 p.successScore) (h : aged W now p = some p') :
    p'.successScore ≤ p.successScore := by
  obtain ⟨hle, rfl⟩ := aged_eq_some.mp h
  exact roundTo_le hdec (decayedScore_le hweeks (score_pos_of_decayed hweeks hle).le)

theorem score_le_of_aged_old (hweeks : WholeWeeks p.timestamp now)
    (hold : elapsedWeeks now p.timestamp ≠ 0) (h : aged W now p = some p') :
    p'.successScore ≤ p.successScore * (98 / 100) + scoreUnit / 2 := by
  obtain ⟨hle, rfl⟩ := aged_eq_some.mp h
  have hpos := (score_pos_of_decayed hweeks hle).le
  have hdecayed : decayedScore W now p ≤ p.successScore * (98 / 100) :=
    decayedScore_le_of_old hweeks hpos hold
  exact (roundTo_le_add _).trans (add_le_add_left hdecayed _)

theorem aged_again_iff (hweeks : WholeWeeks p.timestamp now) (h : aged W now p = some p') :
    aged W now p' = some p' ↔ elapsedWeeks now p.timestamp = 0 := by
  have hmin := minScore_le_of_aged h
  have hstamp := timestamp_of_aged h
  constructor
  · intro hagain
    by_contra hold
    rw [← hstamp] at hweeks hold
    have hle := score_le_of_aged_old hweeks hold hagain
    have hunit : scoreUnit = 1 / 10000 := by norm_num [scoreUnit]
    rw [minScore] at hmin
    linarith
  · intro hyoung
    have hscore : decayedScore W now p' = p'.successScore :=
      decayedScore_of_young (by rwa [hstamp])
    rw [aged_eq_some, hscore, (decimals_of_aged h).roundTo_eq]
    exact ⟨hmin, rfl⟩

end Scores

section Survivors
variable {W : WeeklyMath} {now : ℚ} {times : List ℚ} {p p' : PatternDoc}

theorem survivor_keeps (h : survive (aged W) times p = some p') :
    p' = { p with successScore := p'.successScore } := by
  induction times generalizing p with
  | nil =>
      cases h
      rfl
  | cons t times ih =>
      obtain ⟨p₁, haged, hrest⟩ := survive_cons h
      obtain ⟨_, hp₁⟩ := aged_eq_some.mp haged
      have hkeeps := ih hrest
      rw [hp₁] at hkeeps
      exact hkeeps

theorem timestamp_of_survivor (h : survive (aged W) times p = some p') :
    p'.timestamp = p.timestamp := by
  rw [survivor_keeps h]

theorem survivor_le (hweeks : ∀ t ∈ times, WholeWeeks p.timestamp t)
    (hdec : HasDecimals 4 p.successScore) (h : survive (aged W) times p = some p') :
    p'.successScore ≤ p.successScore := by
  induction times generalizing p with
  | nil =>
      cases h
      exact le_refl _
  | cons t times ih =>
      obtain ⟨p₁, haged, hrest⟩ := survive_cons h
      rw [List.forall_mem_cons] at hweeks
      have hle := score_le_of_aged hweeks.1 hdec haged
      rw [← timestamp_of_aged haged] at hweeks
      exact (ih hweeks.2 (decimals_of_aged haged) hrest).trans hle

theorem survivor_young_rounded (hdec : HasDecimals 4 p.successScore)
    (hmin : minScore ≤ p.successScore)
    (hyoung : ∀ t ∈ times, elapsedWeeks t p.timestamp = 0) : survive (aged W) times p = some p := by
  induction times with
  | nil => rfl
  | cons t times ih =>
      rw [List.forall_mem_cons] at hyoung
      have haged : aged W t p = some p := by
        rw [aged_eq_some, decayedScore_of_young hyoung.1, hdec.roundTo_eq]
        exact ⟨hmin, rfl⟩
      rw [survive, haged]
      exact ih hyoung.2

theorem survivor_young (hyoung : ∀ t ∈ times, elapsedWeeks t p.timestamp = 0) :
    (survive (aged W) times p = none ∧ p.successScore < minScore) ∨
      ∃ p', survive (aged W) times p = some p' ∧
        |p'.successScore - p.successScore| ≤ scoreUnit / 2 := by
  have hunit : scoreUnit = 1 / 10000 := by norm_num [scoreUnit]
  cases times with
  | nil =>
      refine .inr ⟨p, rfl, ?_⟩
      rw [sub_self, abs_zero]
      linarith
  | cons t times =>
      rw [List.forall_mem_cons] at hyoung
      have hscore : decayedScore W t p = p.successScore := decayedScore_of_young hyoung.1
      by_cases hlow : p.successScore < minScore
      · refine .inl ⟨?_, hlow⟩
        rw [survive, aged_eq_none.mpr (hscore.trans_lt hlow)]
        rfl
      · obtain ⟨p₁, hp₁⟩ : ∃ p₁, p₁ = { p with successScore := roundTo 4 p.successScore } :=
          ⟨_, rfl⟩
        have haged : aged W t p = some p₁ := by
          rw [aged_eq_some, hscore]
          exact ⟨not_lt.mp hlow, hp₁⟩
        have hyoung₁ : ∀ t ∈ times, elapsedWeeks t p₁.timestamp = 0 := by
          rw [timestamp_of_aged haged]
          exact hyoung.2
        refine .inr ⟨p₁, ?_, ?_⟩
        · rw [survive, haged]
          exact survivor_young_rounded (decimals_of_aged haged) (minScore_le_of_aged haged) hyoung₁
        · rw [hp₁]
          exact roundTo_near p.successScore

theorem old_of_aged {p₁ : PatternDoc} {t : ℚ} (haged : aged W t p = some p₁)
    (hhere : elapsedWeeks t p.timestamp = 0)
    (hold : ∃ u ∈ t :: times, elapsedWeeks u p.timestamp ≠ 0) :
    ∃ u ∈ times, elapsedWeeks u p₁.timestamp ≠ 0 := by
  obtain ⟨u, hu, hne⟩ := hold
  rw [timestamp_of_aged haged]
  cases List.mem_cons.mp hu with
  | inl heq => exact absurd (heq ▸ hhere) hne
  | inr hu => exact ⟨u, hu, hne⟩

theorem survivor_old_rounded (hweeks : ∀ t ∈ times, WholeWeeks p.timestamp t)
    (hdec : HasDecimals 4 p.successScore)
    (hold : ∃ t ∈ times, elapsedWeeks t p.timestamp ≠ 0) (h : survive (aged W) times p = some p') :
    p'.successScore ≤ p.successScore * (98 / 100) + scoreUnit / 2 := by
  induction times generalizing p with
  | nil =>
      obtain ⟨t, ht, _⟩ := hold
      cases ht
  | cons t times ih =>
      obtain ⟨p₁, haged, hrest⟩ := survive_cons h
      have hdec₁ := decimals_of_aged haged
      rw [List.forall_mem_cons] at hweeks
      have hlater : ∀ u ∈ times, WholeWeeks p₁.timestamp u := timestamp_of_aged haged ▸ hweeks.2
      by_cases hhere : elapsedWeeks t p.timestamp = 0
      · have hle := score_le_of_aged hweeks.1 hdec haged
        have hfinal := ih hlater hdec₁ (old_of_aged haged hhere hold) hrest
        linarith
      · exact (survivor_le hlater hdec₁ hrest).trans (score_le_of_aged_old hweeks.1 hhere haged)

theorem survivor_old (hweeks : ∀ t ∈ times, WholeWeeks p.timestamp t)
    (hold : ∃ t ∈ times, elapsedWeeks t p.timestamp ≠ 0)
    (h : survive (aged W) times p = some p') :
    p'.successScore ≤ p.successScore * (98 / 100) + scoreUnit := by
  cases times with
  | nil =>
      obtain ⟨t, ht, _⟩ := hold
      cases ht
  | cons t times =>
      obtain ⟨p₁, haged, hrest⟩ := survive_cons h
      have hunit : scoreUnit = 1 / 10000 := by norm_num [scoreUnit]
      have hdec₁ := decimals_of_aged haged
      rw [List.forall_mem_cons] at hweeks
      have hlater : ∀ u ∈ times, WholeWeeks p₁.timestamp u := timestamp_of_aged haged ▸ hweeks.2
      by_cases hhere : elapsedWeeks t p.timestamp = 0
      · have hle : p₁.successScore ≤ p.successScore + scoreUnit / 2 := by
          obtain ⟨hmin, rfl⟩ := aged_eq_some.mp haged
          have hpos := (score_pos_of_decayed hweeks.1 hmin).le
          exact (roundTo_le_add _).trans (add_le_add_left (decayedScore_le hweeks.1 hpos) _)
        have hfinal := survivor_old_rounded hlater hdec₁ (old_of_aged haged hhere hold) hrest
        linarith
      · have hle := score_le_of_aged_old hweeks.1 hhere haged
        have hfinal := survivor_le hlater hdec₁ hrest
        linarith

theorem decayedScore_lt_of_lt (hweeks : WholeWeeks p.timestamp now)
    (h : p.successScore < minScore) : decayedScore W now p < minScore := by
  by_contra hle
  have hpos := score_pos_of_decayed hweeks (not_lt.mp hle)
  exact hle ((decayedScore_le hweeks hpos.le).trans_lt h)

theorem decayedScore_near (hweeks : WholeWeeks p.timestamp now) (hstamp : p'.timestamp = p.timestamp)
    (h : |p'.successScore - p.successScore| ≤ scoreUnit / 2) :
    |decayedScore W now p' - decayedScore W now p| ≤ scoreUnit / 2 := by
  obtain ⟨f, hf⟩ := exists_decayFactor W hweeks
  rw [hf.decayed p' hstamp, hf.decayed p rfl, ← sub_mul, abs_mul, abs_of_pos hf.pos]
  exact (mul_le_of_le_one_right (abs_nonneg _) hf.le_one).trans h

theorem agreesWith_young (hnow : WholeWeeks p.timestamp now)
    (hyoung : ∀ t ∈ times, elapsedWeeks t p.timestamp = 0) :
    AgreesWith W now p (((survive (aged W) times p).bind (aged W now)).map some) := by
  have hunit : scoreUnit = 1 / 10000 := by norm_num [scoreUnit]
  cases survivor_young hyoung with
  | inl hpruned =>
      obtain ⟨hnone, hlow⟩ := hpruned
      rw [hnone]
      have hlt : decayedScore W now p < minScore := decayedScore_lt_of_lt hnow hlow
      show decayedScore W now p < minScore + scoreUnit
      linarith
  | inr hkept =>
      obtain ⟨p₁, hlives, hnear⟩ := hkept
      have hdecayed : |decayedScore W now p₁ - decayedScore W now p| ≤ scoreUnit / 2 :=
        decayedScore_near hnow (timestamp_of_survivor hlives) hnear
      obtain ⟨hlow, hhigh⟩ := abs_le.mp hdecayed
      rw [hlives, Option.bind_some]
      cases haged : aged W now p₁ with
      | none =>
          have hlt := aged_eq_none.mp haged
          show decayedScore W now p < minScore + scoreUnit
          linarith
      | some p' =>
          obtain ⟨hmin, hp'⟩ := aged_eq_some.mp haged
          have hround := abs_le.mp (roundTo_near (decayedScore W now p₁))
          have hscore : p'.successScore = roundTo 4 (decayedScore W now p₁) := by rw [hp']
          refine ⟨?_, ?_, ?_⟩
          · rw [hscore, hp', survivor_keeps hlives]
          · rw [hscore, abs_le]
            constructor <;> linarith [hround.1, hround.2]
          · linarith

theorem agreesWith_old (hnow : WholeWeeks p.timestamp now)
    (hweeks : ∀ t ∈ times, WholeWeeks p.timestamp t)
    (hold : ∃ t ∈ times, elapsedWeeks t p.timestamp ≠ 0) :
    AgreesWith W now p (((survive (aged W) times p).bind (aged W now)).map some) ↔
      decayedScore W now p < minScore + scoreUnit := by
  have hunit : scoreUnit = 1 / 10000 := by norm_num [scoreUnit]
  cases hlives : survive (aged W) times p with
  | none => exact Iff.rfl
  | some p₁ =>
      rw [Option.bind_some]
      cases haged : aged W now p₁ with
      | none => exact Iff.rfl
      | some p' =>
          obtain ⟨hmin, hp'⟩ := aged_eq_some.mp haged
          have hround := roundTo_le_add (decayedScore W now p₁)
          have hscore : p'.successScore = roundTo 4 (decayedScore W now p₁) := by rw [hp']
          have hlost : decayedScore W now p₁ ≤ decayedScore W now p * (98 / 100) + scoreUnit := by
            obtain ⟨f, hf⟩ := exists_decayFactor W hnow
            have hscaled := mul_le_mul_of_nonneg_right (survivor_old hweeks hold hlives) hf.pos.le
            rw [hf.decayed p₁ (timestamp_of_survivor hlives), hf.decayed p rfl]
            have hsmall : scoreUnit * f ≤ scoreUnit :=
              mul_le_of_le_one_right (by rw [hunit]; norm_num) hf.le_one
            linarith
          rw [minScore] at hmin
          refine iff_of_false ?_ ?_
          · intro hagrees
            have hnear := (abs_le.mp hagrees.2.1).1
            rw [hscore] at hnear
            linarith
          · rw [minScore, not_lt]
            linarith

theorem agreesWith_survivor_iff (hnow : WholeWeeks p.timestamp now)
    (hweeks : ∀ t ∈ times, WholeWeeks p.timestamp t) :
    AgreesWith W now p ((survive (aged W) (times ++ [now]) p).map some) ↔
      (minScore + scoreUnit ≤ decayedScore W now p →
        ∀ t ∈ times, elapsedWeeks t p.timestamp = 0) := by
  rw [survive_concat]
  by_cases hyoung : ∀ t ∈ times, elapsedWeeks t p.timestamp = 0
  · exact iff_of_true (agreesWith_young hnow hyoung) fun _ => hyoung
  · have hold : ∃ t ∈ times, elapsedWeeks t p.timestamp ≠ 0 := by
      by_contra hnone
      refine hyoung fun t ht => ?_
      by_contra hne
      exact hnone ⟨t, ht, hne⟩
    rw [agreesWith_old hnow hweeks hold]
    exact ⟨fun hlt hle => absurd hlt (not_lt.mpr hle), fun h => not_le.mp fun hle => hyoung (h hle)⟩

end Survivors

section Stores
variable {W : WeeklyMath} {now : ℚ} {key : Text} {p p' : PatternDoc} {s : AgingStore} {times : List ℚ}
  {entries : List (Text × Option PatternDoc)}

theorem mem_of_reached (h : (key, p) ∈ reached entries) : (key, some p) ∈ entries := by
  induction entries with
  | nil => cases h
  | cons x rest ih =>
      obtain ⟨k, doc⟩ := x
      cases doc with
      | none => cases h
      | some q =>
          cases List.mem_cons.mp h with
          | inl heq =>
              cases heq
              exact List.mem_cons_self
          | inr hrest => exact List.mem_cons_of_mem _ (ih hrest)

theorem reached_of_aged (h : (key, p) ∈ reached entries) (haged : aged W now p = some p') :
    (key, p') ∈ reached (ageEntries W now entries).1 := by
  induction entries with
  | nil => cases h
  | cons x rest ih =>
      obtain ⟨k, doc⟩ := x
      cases doc with
      | none => cases h
      | some q =>
          rw [ageEntries]
          cases List.mem_cons.mp h with
          | inl heq =>
              cases heq
              rw [haged]
              exact List.mem_cons_self
          | inr hrest =>
              cases aged W now q with
              | none => exact ih hrest
              | some q' => exact List.mem_cons_of_mem _ (ih hrest)

theorem not_mem_of_pruned (hunique : (entries.map Prod.fst).Nodup)
    (h : (key, p) ∈ reached entries) (haged : aged W now p = none) :
    key ∉ (ageEntries W now entries).1.map Prod.fst := by
  induction entries with
  | nil => cases h
  | cons x rest ih =>
      obtain ⟨k, doc⟩ := x
      obtain ⟨hk, hrest⟩ := List.nodup_cons.mp hunique
      cases doc with
      | none => cases h
      | some q =>
          rw [ageEntries]
          cases List.mem_cons.mp h with
          | inl heq =>
              cases heq
              rw [haged]
              exact fun hmem => hk ((ageEntries_keys W now rest).subset hmem)
          | inr hlater =>
              have hnot := ih hrest hlater
              cases aged W now q with
              | none => exact hnot
              | some q' =>
                  intro hmem
                  cases List.mem_cons.mp hmem with
                  | inl heq =>
                      refine hk (heq ▸ ?_)
                      exact List.mem_map.mpr ⟨(key, some p), mem_of_reached hlater, rfl⟩
                  | inr hmem => exact hnot hmem

theorem exec_runAging_keys (s : AgingStore) (times : List ℚ) :
    ((exec (runAging W) s times).entries.map Prod.fst).Sublist (s.entries.map Prod.fst) := by
  induction times generalizing s with
  | nil => exact List.Sublist.refl _
  | cons t times ih => exact (ih (runAging W s t)).trans (ageEntries_keys W t s.entries)

theorem get?_exec_runAging (h : (key, p) ∈ reached s.entries) :
    (exec (runAging W) s times).get? key = (survive (aged W) times p).map some := by
  induction times generalizing s p with
  | nil => exact OrderedDict.get?_eq_some.mpr (mem_of_reached h)
  | cons t times ih =>
      rw [exec_cons, survive]
      cases haged : aged W t p with
      | none =>
          have hgone := not_mem_of_pruned s.unique h haged
          cases hget : (exec (runAging W) (runAging W s t) times).get? key with
          | none => rfl
          | some doc =>
              have hmem := OrderedDict.mem_keys.mpr ⟨doc, hget⟩
              exact (hgone ((exec_runAging_keys (runAging W s t) times).subset hmem)).elim
      | some p₁ => exact ih (reached_of_aged h haged)

theorem ageEntries_again_iff :
    (ageEntries W now (ageEntries W now entries).1).1 = (ageEntries W now entries).1 ↔
      ∀ x ∈ reached entries, ∀ p', aged W now x.2 = some p' → aged W now p' = some p' := by
  induction entries with
  | nil => exact iff_of_true rfl fun x hx => by cases hx
  | cons x rest ih =>
      obtain ⟨k, doc⟩ := x
      cases doc with
      | none => exact iff_of_true rfl fun x hx => by cases hx
      | some q =>
          rw [reached, List.forall_mem_cons, ← ih, ageEntries]
          cases haged : aged W now q with
          | none => simp
          | some q' =>
              have hlen := (ageEntries_keys W now (ageEntries W now rest).1).length_le
              simp only [List.length_map] at hlen
              dsimp only
              rw [ageEntries]
              cases hagain : aged W now q' with
              | none =>
                  refine iff_of_false ?_ ?_
                  · intro heq
                    have hlength := congrArg List.length heq
                    simp only [List.length_cons] at hlength
                    omega
                  · intro hall
                    have hsame := hall.1 q' rfl
                    rw [hagain] at hsame
                    cases hsame
              | some q'' => simp [hagain]

variable (W) in
/-- The documents of a store agree with a single run at `now`, up to rounding. -/
def AgreesUpToRounding (now : ℚ) (s s' : AgingStore) : Prop :=
  ∀ x ∈ reached s.entries, AgreesWith W now x.2 (s'.get? x.1)

/-- Every pattern that a run comes to has an age of whole weeks. -/
def AgesInWeeks (s : AgingStore) (now : ℚ) : Prop :=
  ∀ x ∈ reached s.entries, WholeWeeks x.2.timestamp now

/-- A second run at one instant changes nothing, and a run after others leaves what a single
run leaves, exactly when none of the patterns that survive had an age at a run before. -/
theorem aging_schedule_iff (W : WeeklyMath) (s : AgingStore) (now : ℚ)
    (hnow : AgesInWeeks s now) :
    (runAging W (runAging W s now) now = runAging W s now ↔
      ∀ x ∈ reached s.entries, minScore ≤ decayedScore W now x.2 →
        elapsedWeeks now x.2.timestamp = 0) ∧
    ∀ times, (∀ t ∈ times, AgesInWeeks s t) →
      (AgreesUpToRounding W now s (exec (runAging W) s (times ++ [now])) ↔
        ∀ x ∈ reached s.entries, minScore + scoreUnit ≤ decayedScore W now x.2 →
          ∀ t ∈ times, elapsedWeeks t x.2.timestamp = 0) := by
  constructor
  · have hentries : runAging W (runAging W s now) now = runAging W s now ↔
        (ageEntries W now (ageEntries W now s.entries).1).1 = (ageEntries W now s.entries).1 :=
      ⟨fun h => congrArg OrderedDict.entries h, fun h => OrderedDict.ext_entries h⟩
    rw [hentries, ageEntries_again_iff]
    refine forall₂_congr fun x hx => ?_
    constructor
    · intro h hmin
      have haged := aged_eq_some.mpr ⟨hmin, rfl⟩
      exact (aged_again_iff (hnow x hx) haged).mp (h _ haged)
    · intro h p' haged
      exact (aged_again_iff (hnow x hx) haged).mpr (h (aged_eq_some.mp haged).1)
  · intro times hweeks
    refine forall₂_congr fun x hx => ?_
    rw [get?_exec_runAging hx]
    exact agreesWith_survivor_iff (hnow x hx) fun t ht => hweeks t ht x hx

end Stores

section Sample

/-- For other ages than whole weeks only roughly the decay. -/
def weeklyMath : WeeklyMath where
  toPatternMath :=
    { plainMath with
      decayed := fun score weeks => score * decayPerWeek ^ ⌊weeks⌋₊
      round := roundTo 4 }
  decayed_weeks score weeks := by
    show score * decayPerWeek ^ ⌊(weeks : ℚ)⌋₊ = _
    rw [Nat.floor_natCast]
  round_eq _ := rfl

def sortPattern : PatternDoc := ⟨"sort a list".toList, [], 1, 0, 0⟩

/-- A pattern, one that is a week younger, and one that is about to be pruned. -/
def agingStore : AgingStore :=
  ⟨[("patterns/a1".toList, some sortPattern),
    ("patterns/a2".toList, some { sortPattern with timestamp := 604800 }),
    ("patterns/a3".toList, some { sortPattern with successScore := 1 / 20 })], by decide⟩

theorem elapsedWeeks_sortPattern : elapsedWeeks 604800 sortPattern.timestamp = 1 := by
  have hstamp : sortPattern.timestamp = 0 := rfl
  rw [elapsedWeeks, hstamp]
  norm_num

theorem agesInWeeks_agingStore : AgesInWeeks agingStore 604800 := by
  intro x hx
  have hcases : x.2.timestamp = sortPattern.timestamp ∨ x.2.timestamp = 604800 := by
    simp only [agingStore, reached, List.mem_cons, List.not_mem_nil, or_false] at hx
    obtain rfl | rfl | rfl := hx
    · exact .inl rfl
    · exact .inr rfl
    · exact .inl rfl
  cases hcases with
  | inl hold =>
      refine ⟨1, ?_⟩
      rw [hold, elapsedWeeks_sortPattern, Nat.cast_one]
  | inr hnew =>
      refine ⟨0, ?_⟩
      rw [hnew, elapsedWeeks, sub_self, zero_div, max_self, Nat.cast_zero]

theorem aging_schedule_same_week :
    (runAging weeklyMath (runAging weeklyMath agingStore 604800) 604800 =
        runAging weeklyMath agingStore 604800 ↔
      ∀ x ∈ reached agingStore.entries, minScore ≤ decayedScore weeklyMath 604800 x.2 →
        elapsedWeeks 604800 x.2.timestamp = 0) ∧
    (AgreesUpToRounding weeklyMath 604800 agingStore
        (exec (runAging weeklyMath) agingStore ([604800] ++ [604800])) ↔
      ∀ x ∈ reached agingStore.entries, minScore + scoreUnit ≤ decayedScore weeklyMath 604800 x.2 →
        ∀ t ∈ ([604800] : List ℚ), elapsedWeeks t x.2.timestamp = 0) := by
  have h := aging_schedule_iff weeklyMath agingStore 604800 agesInWeeks_agingStore
  exact ⟨h.1, h.2 [604800] (List.forall_mem_singleton.mpr agesInWeeks_agingStore)⟩

/-- A pattern with score 1, a week after it was stored: a second run at the same instant
decays it for the week again. -/
theorem second_run_decays :
    runAging weeklyMath (runAging weeklyMath agingStore 604800) 604800 ≠
        runAging weeklyMath agingStore 604800 ∧
      ¬ AgreesUpToRounding weeklyMath 604800 agingStore
        (exec (runAging weeklyMath) agingStore [604800, 604800]) := by
  have hweeks := agesInWeeks_agingStore
  have hscore : decayedScore weeklyMath 604800 sortPattern = 98 / 100 := by
    have hdecay := weeklyMath.decayed_weeks sortPattern.successScore 1
    have hfull : sortPattern.successScore = 1 := rfl
    rw [Nat.cast_one, ← elapsedWeeks_sortPattern, hfull, one_mul, pow_one] at hdecay
    exact hdecay
  have hmin : minScore ≤ decayedScore weeklyMath 604800 sortPattern := by
    rw [hscore]
    norm_num [minScore]
  have hreached : ("patterns/a1".toList, sortPattern) ∈ reached agingStore.entries :=
    List.mem_cons_self
  have hold : elapsedWeeks 604800 sortPattern.timestamp ≠ 0 := by
    rw [elapsedWeeks_sortPattern]
    exact one_ne_zero
  constructor
  · intro hsame
    have hagain := ageEntries_again_iff.mp (congrArg OrderedDict.entries hsame) _ hreached
    have haged := aged_eq_some.mpr ⟨hmin, rfl⟩
    exact hold ((aged_again_iff (hweeks _ hreached) haged).mp (hagain _ haged))
  · intro hagrees
    have hdoc := hagrees _ hreached
    rw [get?_exec_runAging hreached] at hdoc
    have htimes : ([604800, 604800] : List ℚ) = [604800] ++ [604800] := rfl
    rw [htimes, agreesWith_survivor_iff (hweeks _ hreached)
      (List.forall_mem_singleton.mpr (hweeks _ hreached))] at hdoc
    refine hold (hdoc ?_ 604800 List.mem_cons_self)
    rw [hscore]
    norm_num [minScore, scoreUnit]

end Sample

end Engramia.Patterns
