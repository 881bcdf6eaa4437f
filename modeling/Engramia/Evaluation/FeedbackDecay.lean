import Engramia.Core.Stores
import Engramia.Library.Rounding
import Engramia.Library.Run
import Mathlib.Algebra.Order.Star.Real
import Mathlib.Analysis.SpecialFunctions.Log.Base
import Mathlib.Data.List.DropRight
import Mathlib.Tactic.Linarith
import Mathlib.Tactic.NormNum

/-!
The decay of recurring feedback. A call decays a score for the time since the last one, rounds
it to four decimals and records the second of the call. Each rounding counts in full, so calls
that are close together can lose an entry long before its time or stop its decay. Only an entry
at the prune threshold is safe from every schedule. With half a week between calls an entry
stays within a thousandth of its score until it is that close to the threshold.

Scores and instants are real numbers.
-/
namespace Engramia.Evaluation
open Engramia.Library Engramia.Patterns Engramia.Storage
open Engramia.Core (clusterThreshold maxFeedbackLen maxKeep)

section Definitions

local instance atLeastTwo_two : Nat.AtLeastTwo 2 := ⟨by decide⟩

local instance atLeastTwo_ten : Nat.AtLeastTwo 10 := ⟨by decide⟩

noncomputable def feedbackDecayPerWeek : ℝ := 9 / 10

noncomputable def feedbackMinScore : ℝ := 15 / 100

/-- A feedback record. Its stamps are whole seconds, and an older record may lack the one of
its last decay. -/
structure FeedbackEntry where
  pattern : Text
  count : ℕ
  score : ℝ
  lastSeen : ℤ
  lastDecayed : Option ℤ
  bounds : 0 ≤ score ∧ score ≤ 1

/-- The entry that `record` appends. -/
noncomputable def FeedbackEntry.first (pattern : Text) (now : ℤ) : FeedbackEntry where
  pattern := pattern
  count := 1
  score := 1 / 2
  lastSeen := now
  lastDecayed := some now
  bounds := ⟨by norm_num, by norm_num⟩

/-- An entry that `record` sees again. -/
noncomputable def FeedbackEntry.again (now : ℤ) (e : FeedbackEntry) : FeedbackEntry :=
  { e with
    count := e.count + 1
    score := min (e.score + 1 / 10) 1
    lastSeen := now
    bounds := ⟨le_min (add_nonneg e.bounds.1 (by norm_num)) zero_le_one, min_le_right _ _⟩ }

/-- `record`, which raises for a text that is too long. -/
noncomputable def recordFeedback (T : TextMethods) (normalize strip : Text → Text)
    (text : Text) (now : ℤ) (entries : List FeedbackEntry) : Option (List FeedbackEntry) :=
  let norm := normalize text
  if maxFeedbackLen < text.length then none
  else if norm = [] then some entries
  else
    match entries.findIdx? fun e =>
        clusterThreshold < jaccard T (normalize e.pattern) norm with
    | some i => some (entries.modify i (·.again now))
    | none => some ((entries ++ [FeedbackEntry.first (strip text) now]).rtake maxKeep)

/-- `p.get("last_decayed", p.get("last_seen", ""))` -/
def FeedbackEntry.decayedSince (e : FeedbackEntry) : ℤ :=
  e.lastDecayed.getD e.lastSeen

noncomputable def weeks (seconds : ℝ) : ℝ := seconds / (7 * 24 * 3600)

/-- The factor of a decay over some weeks. -/
noncomputable def factor (elapsed : ℝ) : ℝ := feedbackDecayPerWeek ^ elapsed

theorem factor_pos (x : ℝ) : 0 < factor x :=
  Real.rpow_pos_of_pos (by norm_num [feedbackDecayPerWeek]) x

theorem factor_anti {x y : ℝ} (h : x ≤ y) : factor y ≤ factor x :=
  Real.rpow_le_rpow_of_exponent_ge (by norm_num [feedbackDecayPerWeek])
    (by norm_num [feedbackDecayPerWeek]) h

theorem factor_zero : factor 0 = 1 := Real.rpow_zero _

theorem factor_le_one {x : ℝ} (h : 0 ≤ x) : factor x ≤ 1 :=
  (factor_anti h).trans factor_zero.le

theorem decayed_bounds {score elapsed : ℝ} (hscore : 0 ≤ score ∧ score ≤ 1)
    (h : 0 ≤ elapsed) :
    0 ≤ roundTo 4 (score * factor elapsed) ∧ roundTo 4 (score * factor elapsed) ≤ 1 := by
  have hzero : (0 : ℝ) ≤ score * factor elapsed := mul_nonneg hscore.1 (factor_pos _).le
  have hone : score * factor elapsed ≤ 1 :=
    mul_le_one₀ hscore.2 (factor_pos _).le (factor_le_one h)
  exact ⟨le_roundTo (hasDecimals_zero 4) hzero,
    roundTo_le (hasDecimals_one 4) hone⟩

/-- `elapsed_weeks` -/
noncomputable def FeedbackEntry.elapsed (e : FeedbackEntry) (now : ℝ) : ℝ :=
  max 0 (weeks (now - e.decayedSince))

/-- What a call of `run_decay` leaves of an entry, which is nothing when it is pruned. -/
noncomputable def decayEntry (now : ℝ) (e : FeedbackEntry) : Option FeedbackEntry :=
  let decayed := e.score * factor (e.elapsed now)
  if feedbackMinScore ≤ decayed then
    some
      { e with
        score := roundTo 4 decayed
        lastDecayed := some ⌊now⌋
        bounds := decayed_bounds e.bounds (le_max_left _ _) }
  else none

/-- `run_decay`, with the number of entries pruned. -/
noncomputable def runDecay (entries : List FeedbackEntry) (now : ℝ) : List FeedbackEntry × ℕ :=
  let surviving := entries.filterMap (decayEntry now)
  (surviving, entries.length - surviving.length)

/-- The score that the weeks since its last decay leave of an entry. -/
noncomputable def expectedScore (e : FeedbackEntry) (now : ℝ) : ℝ :=
  e.score * factor (weeks (now - e.decayedSince))

/-- Calls one after another, the first not before the last decay of the entry. -/
def InOrder (e : FeedbackEntry) (times : List ℝ) : Prop :=
  ((e.decayedSince : ℝ) :: times).Pairwise (· ≤ ·)

/-- After the calls the entry has the score that one call would leave, up to a thousandth. -/
def KeepsPace (e : FeedbackEntry) (times : List ℝ) (now : ℝ) : Prop :=
  ∃ e', survive decayEntry (times ++ [now]) e = some e' ∧
    |e'.score - expectedScore e now| ≤ 1 / 1000

end Definitions

section Runs
variable {entries : List FeedbackEntry} {times : List ℝ}

theorem exec_runDecay :
    exec (fun es now => (runDecay es now).1) entries times =
      entries.filterMap (survive decayEntry times) := by
  induction times generalizing entries with
  | nil => exact List.filterMap_some.symm
  | cons now times ih =>
      rw [exec_cons, ih, runDecay, List.filterMap_filterMap]
      rfl

end Runs

section Factors
variable {x y : ℝ}

theorem factor_add (x y : ℝ) : factor (x + y) = factor x * factor y :=
  Real.rpow_add (by norm_num [feedbackDecayPerWeek]) x y

theorem factor_lt_one (h : 0 < x) : factor x < 1 :=
  Real.rpow_lt_one (by norm_num [feedbackDecayPerWeek]) (by norm_num [feedbackDecayPerWeek]) h

theorem exists_factor (hpos : 0 < y) (hone : y ≤ 1) : ∃ x, 0 ≤ x ∧ factor x = y := by
  have hbase : (0 : ℝ) < feedbackDecayPerWeek := by norm_num [feedbackDecayPerWeek]
  have hbelow : feedbackDecayPerWeek < 1 := by norm_num [feedbackDecayPerWeek]
  refine ⟨Real.logb feedbackDecayPerWeek y, ?_, Real.rpow_logb hbase hbelow.ne hpos⟩
  exact (Real.logb_nonneg_iff_of_base_lt_one hbase hbelow hpos).mpr hone

theorem one_sub_pow_mul_le {a : ℝ} (ha : 0 ≤ a) (hone : a ≤ 1) (n : ℕ) :
    (1 - a) ^ n * (1 + n * a) ≤ 1 := by
  have hbernoulli : 1 + n * a ≤ (1 + a) ^ n := one_add_mul_le_pow (by linarith) n
  have hpos : 0 ≤ (1 - a) ^ n := pow_nonneg (by linarith) n
  calc (1 - a) ^ n * (1 + n * a)
      ≤ (1 - a) ^ n * (1 + a) ^ n := mul_le_mul_of_nonneg_left hbernoulli hpos
    _ = (1 - a * a) ^ n := by rw [← mul_pow]; ring
    _ ≤ 1 := pow_le_one₀ (by nlinarith) (by nlinarith)

theorem one_sub_le_of_pow {a q r : ℝ} {n : ℕ} (ha : 0 ≤ a) (hone : a ≤ 1) (hq : 0 ≤ q)
    (hpow : q ^ n = r) (hr : 1 < r * (1 + n * a)) : 1 - a ≤ q := by
  by_contra hlt
  have hle : q ^ n ≤ (1 - a) ^ n := pow_le_pow_left₀ hq (not_le.mp hlt).le n
  have hpos : 0 ≤ 1 + n * a := by positivity
  have hmul := mul_le_mul_of_nonneg_right hle hpos
  rw [hpow] at hmul
  exact absurd (hr.trans_le (hmul.trans (one_sub_pow_mul_le ha hone n))) (lt_irrefl 1)

theorem factor_second : 1 - 1 / 1000000 ≤ factor (weeks 1) := by
  have hbase : (0 : ℝ) ≤ feedbackDecayPerWeek := by norm_num [feedbackDecayPerWeek]
  have hweek : weeks 1 = ((604800 : ℕ) : ℝ)⁻¹ := by norm_num [weeks]
  have hpow : factor (weeks 1) ^ 604800 = feedbackDecayPerWeek := by
    rw [factor, hweek]
    exact Real.rpow_inv_natCast_pow hbase (by norm_num)
  refine one_sub_le_of_pow (by norm_num) (by norm_num) (factor_pos _).le hpow ?_
  rw [feedbackDecayPerWeek]
  norm_num

theorem factor_half_week (h : 1 / 2 ≤ x) : factor x ≤ 9487 / 10000 := by
  have hbase : (0 : ℝ) ≤ feedbackDecayPerWeek := by norm_num [feedbackDecayPerWeek]
  have hsq : factor (1 / 2) * factor (1 / 2) = feedbackDecayPerWeek := by
    rw [← factor_add, factor]
    norm_num
  refine (factor_anti h).trans ?_
  by_contra hlt
  have hlow := not_le.mp hlt
  have hgt := mul_self_lt_mul_self (by norm_num) hlow
  rw [hsq, feedbackDecayPerWeek] at hgt
  norm_num at hgt

end Factors

section Calls
variable {e e' : FeedbackEntry} {now T v : ℝ} {times : List ℝ}

theorem weeks_add (x y : ℝ) : weeks (x + y) = weeks x + weeks y := add_div x y _

theorem weeks_mono {x y : ℝ} (h : x ≤ y) : weeks x ≤ weeks y :=
  div_le_div_of_nonneg_right h (by norm_num)

theorem weeks_zero : weeks 0 = 0 := zero_div _

theorem weeks_sub_nonneg {x y : ℝ} (h : x ≤ y) : 0 ≤ weeks (y - x) := by
  rw [← weeks_zero]
  exact weeks_mono (sub_nonneg.mpr h)

theorem decayEntry_eq (h : (e.decayedSince : ℝ) ≤ now) :
    decayEntry now e =
      if feedbackMinScore ≤ expectedScore e now then
        some
          { e with
            score := roundTo 4 (expectedScore e now)
            lastDecayed := some ⌊now⌋
            bounds := decayed_bounds e.bounds (weeks_sub_nonneg h) }
      else none := by
  have helapsed : e.elapsed now = weeks (now - e.decayedSince) :=
    max_eq_right (weeks_sub_nonneg h)
  rw [decayEntry]
  simp only [helapsed]
  rfl

theorem exists_decayEntry (h : (e.decayedSince : ℝ) ≤ now)
    (hmin : feedbackMinScore ≤ expectedScore e now) :
    ∃ e', decayEntry now e = some e' ∧ e'.score = roundTo 4 (expectedScore e now) ∧
      e'.decayedSince = ⌊now⌋ := by
  rw [decayEntry_eq h, if_pos hmin]
  exact ⟨_, rfl, rfl, rfl⟩

theorem decayEntry_pruned (h : (e.decayedSince : ℝ) ≤ now)
    (hlow : expectedScore e now < feedbackMinScore) : decayEntry now e = none := by
  rw [decayEntry_eq h, if_neg (not_le.mpr hlow)]

theorem since_le_of_floor (hsince : e.decayedSince = ⌊T⌋) (h : T ≤ now) :
    (e.decayedSince : ℝ) ≤ now := by
  rw [hsince]
  exact (Int.floor_le T).trans h

theorem expectedScore_since (hsince : e.decayedSince = ⌊T⌋) :
    expectedScore e now =
      e.score * factor (weeks (T - ⌊T⌋)) * factor (weeks (now - T)) := by
  have hsum : weeks (now - e.decayedSince) = weeks (T - ⌊T⌋) + weeks (now - T) := by
    rw [← weeks_add, hsince]
    congr 1
    ring
  rw [expectedScore, hsum, factor_add, mul_assoc]

theorem factor_weeks_trans (a b c : ℝ) :
    factor (weeks (c - a)) = factor (weeks (b - a)) * factor (weeks (c - b)) := by
  rw [← factor_add, ← weeks_add]
  congr 2
  ring

theorem lost_second (T : ℝ) :
    1 - 1 / 1000000 ≤ factor (weeks (T - ⌊T⌋)) ∧ factor (weeks (T - ⌊T⌋)) ≤ 1 := by
  have hnonneg : 0 ≤ weeks (T - ⌊T⌋) := weeks_sub_nonneg (Int.floor_le T)
  have hsecond : weeks (T - ⌊T⌋) ≤ weeks 1 := by
    apply weeks_mono
    have hlt := Int.lt_floor_add_one T
    linarith
  exact ⟨factor_second.trans (factor_anti hsecond), factor_le_one hnonneg⟩

theorem near_expected (hsince : e.decayedSince = ⌊T⌋) (hnear : |e.score - v| ≤ 1 / 1000)
    (hgap : T + 302400 ≤ now) :
    |expectedScore e now - v * factor (weeks (now - T))| ≤ 95 / 100000 := by
  obtain ⟨hsecond, hone⟩ := lost_second T
  obtain ⟨hlow, hhigh⟩ := abs_le.mp hnear
  obtain ⟨hscore, hscore'⟩ := e.bounds
  have hhalf : (1 : ℝ) / 2 ≤ weeks (now - T) := by
    have hmono : weeks 302400 ≤ weeks (now - T) := weeks_mono (by linarith)
    have hval : weeks 302400 = 1 / 2 := by norm_num [weeks]
    rwa [hval] at hmono
  have hfactor := factor_half_week hhalf
  have hpos := factor_pos (weeks (now - T))
  rw [expectedScore_since hsince, ← sub_mul, abs_mul, abs_of_pos hpos]
  have hdiff : |e.score * factor (weeks (T - ⌊T⌋)) - v| ≤ 1001 / 1000000 := by
    have hkept : e.score * factor (weeks (T - ⌊T⌋)) ≤ e.score := mul_le_of_le_one_right hscore hone
    have hlost : e.score * (1 - 1 / 1000000) ≤ e.score * factor (weeks (T - ⌊T⌋)) :=
      mul_le_mul_of_nonneg_left hsecond hscore
    rw [abs_le]
    constructor <;> linarith
  calc |e.score * factor (weeks (T - ⌊T⌋)) - v| * factor (weeks (now - T))
      ≤ 1001 / 1000000 * (9487 / 10000) := mul_le_mul hdiff hfactor hpos.le (by norm_num)
    _ ≤ 95 / 100000 := by norm_num

theorem score_near_of_rounded {x : ℝ} (hscore : e'.score = roundTo 4 x)
    (h : |x - v| ≤ 95 / 100000) : |e'.score - v| ≤ 1 / 1000 := by
  have hround := abs_le.mp (abs_roundTo_sub_le 4 x)
  obtain ⟨hlow, hhigh⟩ := abs_le.mp h
  rw [hscore, abs_le]
  constructor <;> linarith [hround.1, hround.2]

theorem spaced_keeps (hsince : e.decayedSince = ⌊T⌋) (hnear : |e.score - v| ≤ 1 / 1000)
    (hv : 0 ≤ v) (hspaced : (T :: (times ++ [now])).Pairwise (fun a b => a + 302400 ≤ b))
    (hlast : 151 / 1000 ≤ v * factor (weeks (now - T))) :
    ∃ e', survive decayEntry (times ++ [now]) e = some e' ∧
      |e'.score - v * factor (weeks (now - T))| ≤ 1 / 1000 := by
  induction times generalizing e T v with
  | nil =>
      have hgap : T + 302400 ≤ now := (List.pairwise_cons.mp hspaced).1 now List.mem_cons_self
      have hexpected := near_expected hsince hnear hgap
      have hmin : feedbackMinScore ≤ expectedScore e now := by
        have hlow := (abs_le.mp hexpected).1
        rw [feedbackMinScore]
        linarith
      obtain ⟨e', hcall, hscore, _⟩ :=
        exists_decayEntry (since_le_of_floor hsince (by linarith)) hmin
      refine ⟨e', ?_, score_near_of_rounded hscore hexpected⟩
      rw [List.nil_append, survive, hcall]
      rfl
  | cons t times ih =>
      obtain ⟨hfirst, hrest⟩ := List.pairwise_cons.mp hspaced
      have hgap : T + 302400 ≤ t := hfirst t List.mem_cons_self
      have htnow : t + 302400 ≤ now :=
        (List.pairwise_cons.mp hrest).1 now (List.mem_append_right _ List.mem_cons_self)
      have hexpected := near_expected hsince hnear hgap
      have hsplit : v * factor (weeks (now - T)) =
          v * factor (weeks (t - T)) * factor (weeks (now - t)) := by
        rw [factor_weeks_trans T t now, mul_assoc]
      have hnext : 0 ≤ v * factor (weeks (t - T)) := mul_nonneg hv (factor_pos _).le
      have hbefore : 151 / 1000 ≤ v * factor (weeks (t - T)) := by
        rw [hsplit] at hlast
        have hone : factor (weeks (now - t)) ≤ 1 := factor_le_one (weeks_sub_nonneg (by linarith))
        exact hlast.trans (mul_le_of_le_one_right hnext hone)
      have hmin : feedbackMinScore ≤ expectedScore e t := by
        have hlow := (abs_le.mp hexpected).1
        rw [feedbackMinScore]
        linarith
      obtain ⟨e₁, hcall, hscore, hstamp⟩ :=
        exists_decayEntry (since_le_of_floor hsince (by linarith)) hmin
      rw [hsplit] at hlast ⊢
      obtain ⟨e', hruns, hclose⟩ :=
        ih hstamp (score_near_of_rounded hscore hexpected) hnext hrest hlast
      refine ⟨e', ?_, hclose⟩
      rw [List.cons_append, survive, hcall]
      exact hruns

theorem expectedScore_trans (e : FeedbackEntry) (t now : ℝ) :
    expectedScore e now = expectedScore e t * factor (weeks (now - t)) := by
  rw [expectedScore, expectedScore, mul_assoc, ← factor_weeks_trans]

theorem keepsPace_single (h : (e.decayedSince : ℝ) ≤ now)
    (hmin : feedbackMinScore ≤ expectedScore e now) : KeepsPace e [] now := by
  obtain ⟨e', hcall, hscore, _⟩ := exists_decayEntry h hmin
  refine ⟨e', ?_, score_near_of_rounded hscore ?_⟩
  · rw [List.nil_append, survive, hcall]
    rfl
  · rw [sub_self, abs_zero]
    norm_num

theorem keepsPace_spaced (horder : InOrder e (times ++ [now]))
    (hspaced : (times ++ [now]).Pairwise (fun a b => a + 302400 ≤ b))
    (hlast : 151 / 1000 ≤ expectedScore e now) : KeepsPace e times now := by
  cases times with
  | nil =>
      have hfirst := (List.pairwise_cons.mp horder).1 now List.mem_cons_self
      refine keepsPace_single hfirst (le_trans ?_ hlast)
      norm_num [feedbackMinScore]
  | cons t times =>
      obtain ⟨hfirst, hrest⟩ := List.pairwise_cons.mp horder
      have ht : (e.decayedSince : ℝ) ≤ t := hfirst t List.mem_cons_self
      have htnow : t ≤ now :=
        (List.pairwise_cons.mp hrest).1 now (List.mem_append_right _ List.mem_cons_self)
      have hpos : 0 ≤ expectedScore e t := mul_nonneg e.bounds.1 (factor_pos _).le
      rw [expectedScore_trans e t now] at hlast
      have hbefore : 151 / 1000 ≤ expectedScore e t :=
        hlast.trans (mul_le_of_le_one_right hpos (factor_le_one (weeks_sub_nonneg htnow)))
      have hmin : feedbackMinScore ≤ expectedScore e t := by
        rw [feedbackMinScore]
        linarith
      obtain ⟨e₁, hcall, hscore, hstamp⟩ := exists_decayEntry ht hmin
      have hnear : |e₁.score - expectedScore e t| ≤ 1 / 1000 := by
        refine score_near_of_rounded hscore ?_
        rw [sub_self, abs_zero]
        norm_num
      obtain ⟨e', hruns, hclose⟩ := spaced_keeps hstamp hnear hpos hspaced hlast
      refine ⟨e', ?_, ?_⟩
      · rw [List.cons_append, survive, hcall]
        exact hruns
      · rw [expectedScore_trans e t now]
        exact hclose

end Calls

section EarlyPruning
variable {e : FeedbackEntry} {T v : ℝ}

theorem expectedScore_stamp_add (hsince : e.decayedSince = ⌊T⌋) (y : ℝ) :
    expectedScore e (⌊T⌋ + y * 604800) = e.score * factor y := by
  have hweeks : weeks (⌊T⌋ + y * 604800 - e.decayedSince) = y := by
    rw [hsince, weeks]
    ring
  rw [expectedScore, hweeks]

theorem pruned_at_threshold (hsince : e.decayedSince = ⌊T⌋) (hscore : e.score = 1500 / 10 ^ 4)
    (hv : 1500 / 10 ^ 4 < v) :
    ∃ now, T ≤ now ∧ decayEntry now e = none ∧
      feedbackMinScore ≤ v * factor (weeks (now - T)) := by
  have hpos : 0 < v := lt_trans (by norm_num) hv
  have hmin : feedbackMinScore = 1500 / 10 ^ 4 := by norm_num [feedbackMinScore]
  have hratio : 1500 / 10 ^ 4 / v < 1 := (div_lt_one hpos).mpr hv
  obtain ⟨x, hx, hfactor⟩ := exists_factor (div_pos (by norm_num) hpos) hratio.le
  have hweeks : weeks (T + x * 604800 - T) = x := by
    rw [weeks]
    ring
  have hnow : T ≤ T + x * 604800 := by linarith
  refine ⟨T + x * 604800, hnow, ?_, ?_⟩
  · apply decayEntry_pruned (since_le_of_floor hsince hnow)
    rw [expectedScore_since hsince, hweeks, hscore, hmin, hfactor]
    have hlost := (lost_second T).2
    have hle : (1500 : ℝ) / 10 ^ 4 * factor (weeks (T - ⌊T⌋)) ≤ 1500 / 10 ^ 4 :=
      mul_le_of_le_one_right (by norm_num) hlost
    have hratio_pos : 0 < 1500 / 10 ^ 4 / v := div_pos (by norm_num) hpos
    calc 1500 / 10 ^ 4 * factor (weeks (T - ⌊T⌋)) * (1500 / 10 ^ 4 / v)
        ≤ 1500 / 10 ^ 4 * (1500 / 10 ^ 4 / v) := mul_le_mul_of_nonneg_right hle hratio_pos.le
      _ < 1500 / 10 ^ 4 := mul_lt_of_lt_one_right (by norm_num) hratio
  · rw [hweeks, hfactor, hmin, mul_div_cancel₀ _ hpos.ne']

theorem loses_unit {k : ℕ} (hsince : e.decayedSince = ⌊T⌋)
    (hscore : e.score = (1501 + k) / 10 ^ 4) (hv : (3001 + k) / 2 / 10 ^ 4 < v) :
    ∃ t e₁, T ≤ t ∧ decayEntry t e = some e₁ ∧ e₁.decayedSince = ⌊t⌋ ∧
      e₁.score = (1500 + k) / 10 ^ 4 ∧ (3000 + k) / 2 / 10 ^ 4 < v * factor (weeks (t - T)) := by
  have hk : (0 : ℝ) ≤ k := Nat.cast_nonneg k
  have hden : (0 : ℝ) < 3001 + k := by linarith
  have hbound : (k : ℝ) ≤ 8499 := by
    have hone := e.bounds.2
    rw [hscore, div_le_one (by norm_num)] at hone
    norm_num at hone
    linarith
  obtain ⟨y, hy, hfactor⟩ : ∃ y, 0 ≤ y ∧ factor y = (3000 + k) / (3001 + k) :=
    exists_factor (div_pos (by linarith) hden) ((div_le_one hden).mpr (by linarith))
  have hsecond : weeks 1 < y := by
    by_contra hle
    have hclose := factor_second.trans (factor_anti (not_lt.mp hle))
    rw [hfactor, le_div_iff₀ hden] at hclose
    linarith
  have hT : T ≤ ⌊T⌋ + y * 604800 := by
    have hlt := Int.lt_floor_add_one T
    rw [weeks, div_lt_iff₀ (by norm_num)] at hsecond
    linarith
  have hexpected : expectedScore e (⌊T⌋ + y * 604800) * 10 ^ 4 =
      (1501 + k) - (1501 + k) / (3001 + k) := by
    rw [expectedScore_stamp_add hsince, hscore, hfactor]
    field_simp
    ring
  have hhigh : (1501 + (k : ℝ)) / (3001 + k) ≤ 1 := (div_le_one hden).mpr (by linarith)
  have hlow : (1 : ℝ) / 2 < (1501 + k) / (3001 + k) := by
    rw [lt_div_iff₀ hden]
    linarith
  have hround : roundHalfEven (expectedScore e (⌊T⌋ + y * 604800) * 10 ^ 4) = 1500 + (k : ℤ) := by
    apply roundHalfEven_eq
    rw [hexpected, abs_lt]
    push_cast
    constructor <;> linarith
  have hmin : feedbackMinScore ≤ expectedScore e (⌊T⌋ + y * 604800) := by
    rw [feedbackMinScore]
    linarith
  obtain ⟨e₁, hcall, hscore₁, hstamp⟩ :=
    exists_decayEntry (since_le_of_floor hsince hT) hmin
  refine ⟨⌊T⌋ + y * 604800, e₁, hT, hcall, hstamp, ?_, ?_⟩
  · rw [hscore₁, roundTo, hround]
    push_cast
    rfl
  · have hless : factor y ≤ factor (weeks (⌊T⌋ + y * 604800 - T)) := by
      apply factor_anti
      have hfloor := Int.floor_le T
      rw [weeks, div_le_iff₀ (by norm_num)]
      linarith
    have hvpos : 0 < v := lt_trans (by positivity) hv
    have hprod : (3001 + k) / 2 / 10 ^ 4 * ((3000 + k) / (3001 + k)) <
        v * ((3000 + (k : ℝ)) / (3001 + k)) :=
      mul_lt_mul_of_pos_right hv (div_pos (by linarith) hden)
    have hcancel : (3001 + (k : ℝ)) / 2 / 10 ^ 4 * ((3000 + k) / (3001 + k)) =
        (3000 + k) / 2 / 10 ^ 4 := by
      field_simp
    rw [hcancel, ← hfactor] at hprod
    exact hprod.trans_le (mul_le_mul_of_nonneg_left hless hvpos.le)

theorem pruned_early {k : ℕ} (hsince : e.decayedSince = ⌊T⌋)
    (hscore : e.score = (1500 + k) / 10 ^ 4) (hv : (3000 + k) / 2 / 10 ^ 4 < v) :
    ∃ times now, (T :: (times ++ [now])).Pairwise (· ≤ ·) ∧
      survive decayEntry (times ++ [now]) e = none ∧
      feedbackMinScore ≤ v * factor (weeks (now - T)) := by
  induction k generalizing e T v with
  | zero =>
      rw [Nat.cast_zero, add_zero] at hscore hv
      have hv' : 1500 / 10 ^ 4 < v := by linarith
      obtain ⟨now, hnow, hpruned, hmin⟩ := pruned_at_threshold hsince hscore hv'
      refine ⟨[], now, List.pairwise_pair.mpr hnow, ?_, hmin⟩
      rw [List.nil_append, survive, hpruned]
      rfl
  | succ k ih =>
      have hscore' : e.score = (1501 + k) / 10 ^ 4 := by
        rw [hscore]
        push_cast
        ring
      have hv' : (3001 + (k : ℝ)) / 2 / 10 ^ 4 < v := by
        push_cast at hv
        linarith
      obtain ⟨t, e₁, ht, hcall, hstamp, hscore₁, hv₁⟩ := loses_unit hsince hscore' hv'
      obtain ⟨times, now, horder, hpruned, hmin⟩ := ih hstamp hscore₁ hv₁
      refine ⟨t :: times, now, ?_, ?_, ?_⟩
      · refine List.pairwise_cons.mpr ⟨?_, horder⟩
        intro u hu
        cases List.mem_cons.mp hu with
        | inl heq => exact heq ▸ ht
        | inr hu => exact ht.trans ((List.pairwise_cons.mp horder).1 u hu)
      · rw [List.cons_append, survive, hcall]
        exact hpruned
      · rwa [factor_weeks_trans T t now, ← mul_assoc]

theorem rounded_above {x : ℝ} (h : feedbackMinScore < x) :
    ∃ k : ℕ, roundTo 4 x = (1500 + k) / 10 ^ 4 ∧ (3000 + k) / 2 / 10 ^ 4 < x := by
  have hmin : feedbackMinScore = 1500 / 10 ^ 4 := by norm_num [feedbackMinScore]
  rw [hmin, div_lt_iff₀ (by norm_num)] at h
  have hround := abs_roundHalfEven_sub_le (x * 10 ^ 4)
  rw [abs_le] at hround
  have hge : (1500 : ℤ) ≤ roundHalfEven (x * 10 ^ 4) := by
    have hmono := roundHalfEven_mono h.le
    have hexact : roundHalfEven ((1500 : ℤ) : ℝ) = 1500 := roundHalfEven_intCast 1500
    push_cast at hexact
    rwa [hexact] at hmono
  obtain ⟨k, hk⟩ := Int.le.dest hge
  have hcast : ((roundHalfEven (x * 10 ^ 4) : ℤ) : ℝ) = 1500 + k := by
    rw [← hk]
    push_cast
    rfl
  rw [hcast] at hround
  refine ⟨k, by rw [roundTo, hcast], ?_⟩
  rw [div_lt_iff₀ (by norm_num)]
  cases k with
  | zero =>
      rw [Nat.cast_zero]
      linarith
  | succ k =>
      cases k with
      | zero =>
          push_cast at hround ⊢
          have hne : x * 10 ^ 4 ≠ 1500 + 1 / 2 := by
            intro heq
            have htie : roundHalfEven (((1500 : ℤ) : ℝ) + 1 / 2) = 1500 :=
              roundHalfEven_add_half (by norm_num)
            push_cast at htie
            rw [heq, htie] at hk
            omega
          have hlt := lt_of_le_of_ne (by linarith [hround.2] : 1500 + 1 / 2 ≤ x * 10 ^ 4) hne.symm
          linarith
      | succ k =>
          have hk0 : (0 : ℝ) ≤ k := Nat.cast_nonneg k
          push_cast at hround ⊢
          linarith [hround.2]

theorem pruned_above (h : feedbackMinScore < e.score) :
    ∃ times now, InOrder e (times ++ [now]) ∧ survive decayEntry (times ++ [now]) e = none ∧
      feedbackMinScore ≤ expectedScore e now := by
  have hstart : expectedScore e e.decayedSince = e.score := by
    rw [expectedScore, sub_self, weeks_zero, factor_zero, mul_one]
  obtain ⟨k, hround, hv⟩ := rounded_above h
  obtain ⟨e₁, hcall, hscore, hstamp⟩ := exists_decayEntry le_rfl (hstart.symm ▸ h.le)
  rw [hstart] at hscore
  obtain ⟨times, now, horder, hpruned, hmin⟩ := pruned_early hstamp (hscore.trans hround) hv
  refine ⟨e.decayedSince :: times, now, ?_, ?_, hmin⟩
  · refine List.pairwise_cons.mpr ⟨?_, horder⟩
    intro u hu
    cases List.mem_cons.mp hu with
    | inl heq => exact heq.symm.le
    | inr hu => exact (List.pairwise_cons.mp horder).1 u hu
  · rw [List.cons_append, survive, hcall]
    exact hpruned

end EarlyPruning

section Schedules
variable {e : FeedbackEntry} {times : List ℝ} {now : ℝ}

theorem minScore_decimals : HasDecimals 4 feedbackMinScore :=
  ⟨1500, by norm_num [feedbackMinScore]⟩

theorem stays_at_threshold (hscore : e.score = feedbackMinScore)
    (htimes : ∀ t ∈ times, t = (e.decayedSince : ℝ)) :
    ∃ e', survive decayEntry times e = some e' ∧ e'.score = feedbackMinScore := by
  induction times generalizing e with
  | nil => exact ⟨e, rfl, hscore⟩
  | cons t times ih =>
      obtain ⟨ht, hrest⟩ := List.forall_mem_cons.mp htimes
      have hexpected : expectedScore e t = feedbackMinScore := by
        rw [expectedScore, ht, sub_self, weeks_zero, factor_zero, mul_one, hscore]
      obtain ⟨e₁, hcall, hscore₁, hstamp⟩ := exists_decayEntry ht.symm.le hexpected.symm.le
      rw [hexpected, minScore_decimals.roundTo_eq] at hscore₁
      have hsame : e₁.decayedSince = e.decayedSince := by
        rw [hstamp, ht, Int.floor_intCast]
      obtain ⟨e', hruns, hfinal⟩ := ih hscore₁ (by rwa [hsame])
      refine ⟨e', ?_, hfinal⟩
      rw [survive, hcall]
      exact hruns

theorem keepsPace_of_le (h : e.score ≤ feedbackMinScore) (horder : InOrder e (times ++ [now]))
    (hmin : feedbackMinScore ≤ expectedScore e now) : KeepsPace e times now := by
  obtain ⟨hfirst, hrest⟩ := List.pairwise_cons.mp horder
  have hnow : (e.decayedSince : ℝ) ≤ now :=
    hfirst now (List.mem_append_right _ List.mem_cons_self)
  have hle : expectedScore e now ≤ e.score :=
    mul_le_of_le_one_right e.bounds.1 (factor_le_one (weeks_sub_nonneg hnow))
  have hscore : e.score = feedbackMinScore := le_antisymm h (hmin.trans hle)
  have hsame : now = e.decayedSince := by
    refine le_antisymm ?_ hnow
    by_contra hlater
    have hpos : 0 < weeks (now - e.decayedSince) :=
      div_pos (sub_pos.mpr (not_le.mp hlater)) (by norm_num)
    have hlt : expectedScore e now < e.score := by
      apply mul_lt_of_lt_one_right _ (factor_lt_one hpos)
      rw [hscore]
      norm_num [feedbackMinScore]
    linarith
  have htimes : ∀ t ∈ times ++ [now], t = (e.decayedSince : ℝ) := by
    intro t ht
    refine le_antisymm ?_ (hfirst t ht)
    cases List.mem_append.mp ht with
    | inl ht =>
        have hlast := (List.pairwise_append.mp hrest).2.2 t ht now List.mem_cons_self
        exact hlast.trans hsame.le
    | inr ht => exact (List.mem_singleton.mp ht).trans_le hsame.le
  obtain ⟨e', hruns, hfinal⟩ := stays_at_threshold hscore htimes
  have hexpected : expectedScore e now = feedbackMinScore := le_antisymm (hle.trans h) hmin
  refine ⟨e', hruns, ?_⟩
  rw [hfinal, hexpected, sub_self, abs_zero]
  norm_num

/-- An entry keeps pace with its decay in every schedule exactly when its score is not above
the prune threshold. One call always keeps it, and so do calls half a week apart as long as
the score is a thousandth above the threshold. -/
theorem feedback_decay_iff (e : FeedbackEntry) :
    ((∀ times now, InOrder e (times ++ [now]) → feedbackMinScore ≤ expectedScore e now →
      KeepsPace e times now) ↔ e.score ≤ feedbackMinScore) ∧
    (∀ now : ℝ, e.decayedSince ≤ now → feedbackMinScore ≤ expectedScore e now →
      KeepsPace e [] now) ∧
    ∀ times now, InOrder e (times ++ [now]) →
      (times ++ [now]).Pairwise (fun a b => a + 302400 ≤ b) →
        feedbackMinScore + 1 / 1000 ≤ expectedScore e now → KeepsPace e times now := by
  refine ⟨⟨?_, ?_⟩, fun now hnow hmin => keepsPace_single hnow hmin, ?_⟩
  · intro hall
    by_contra habove
    obtain ⟨times, now, horder, hpruned, hmin⟩ := pruned_above (not_le.mp habove)
    obtain ⟨e', hruns, _⟩ := hall times now horder hmin
    rw [hpruned] at hruns
    cases hruns
  · intro hle times now horder hmin
    exact keepsPace_of_le hle horder hmin
  · intro times now horder hspaced hlast
    refine keepsPace_spaced horder hspaced (le_trans ?_ hlast)
    norm_num [feedbackMinScore]

end Schedules

section Sample

/-- A feedback that was recorded once, at 0. -/
noncomputable def newFeedback : FeedbackEntry :=
  FeedbackEntry.first "no error handling".toList 0

/-- The instants of calls that come every minute. -/
def everyMinute (n : ℕ) : List ℝ := (List.range n).map fun i : ℕ => 60 * ((i : ℝ) + 1)

theorem everyMinute_succ (n : ℕ) : everyMinute (n + 1) = everyMinute n ++ [60 * ((n : ℝ) + 1)] := by
  rw [everyMinute, List.range_succ, List.map_append, List.map_singleton, everyMinute]

theorem minute_keeps_score {e : FeedbackEntry} {n : ℕ} (hscore : e.score = 1 / 2)
    (hsince : e.decayedSince = 60 * n) :
    ∃ e', decayEntry (60 * ((n : ℝ) + 1)) e = some e' ∧ e'.score = 1 / 2 ∧
      e'.decayedSince = 60 * (n + 1 : ℕ) := by
  have hle : (e.decayedSince : ℝ) ≤ 60 * ((n : ℝ) + 1) := by
    rw [hsince]
    push_cast
    linarith
  have hminute : 1 - 60 / 1000000 ≤ factor (weeks 60) := by
    have hpow : factor (weeks 60) = factor (weeks 1) ^ 60 := by
      rw [factor, factor, ← Real.rpow_mul_natCast (by norm_num [feedbackDecayPerWeek])]
      congr 1
      norm_num [weeks]
    have hbernoulli : 1 + (60 : ℕ) * (-(1 / 1000000) : ℝ) ≤ (1 + -(1 / 1000000)) ^ 60 :=
      one_add_mul_le_pow (by norm_num) 60
    have hsecond : (1 + -(1 / 1000000) : ℝ) ^ 60 ≤ factor (weeks 1) ^ 60 :=
      pow_le_pow_left₀ (by norm_num) (by linarith [factor_second]) 60
    rw [hpow]
    refine le_trans ?_ (hbernoulli.trans hsecond)
    norm_num
  have hexpected : expectedScore e (60 * ((n : ℝ) + 1)) = 1 / 2 * factor (weeks 60) := by
    rw [expectedScore, hscore, hsince]
    congr 3
    push_cast
    ring
  have hone : factor (weeks 60) ≤ 1 := factor_le_one (div_nonneg (by norm_num) (by norm_num))
  have hround : roundHalfEven (expectedScore e (60 * ((n : ℝ) + 1)) * 10 ^ 4) = 5000 := by
    apply roundHalfEven_eq
    rw [hexpected, abs_lt]
    push_cast
    constructor <;> linarith
  have hmin : feedbackMinScore ≤ expectedScore e (60 * ((n : ℝ) + 1)) := by
    rw [hexpected, feedbackMinScore]
    linarith
  obtain ⟨e', hcall, hscore', hstamp⟩ := exists_decayEntry hle hmin
  refine ⟨e', hcall, ?_, ?_⟩
  · rw [hscore', roundTo, hround]
    norm_num
  · have hwhole : 60 * ((n : ℝ) + 1) = ((60 * (n + 1 : ℕ) : ℤ) : ℝ) := by push_cast; ring
    rw [hstamp, hwhole, Int.floor_intCast]

theorem minutes_keep_score (n : ℕ) :
    ∃ e', survive decayEntry (everyMinute n) newFeedback = some e' ∧ e'.score = 1 / 2 ∧
      e'.decayedSince = 60 * n := by
  induction n with
  | zero => exact ⟨newFeedback, rfl, rfl, rfl⟩
  | succ n ih =>
      obtain ⟨e₁, hruns, hscore, hsince⟩ := ih
      obtain ⟨e', hcall, hkept⟩ := minute_keeps_score hscore hsince
      refine ⟨e', ?_, hkept⟩
      rw [everyMinute_succ, survive_concat, hruns, Option.bind_some, hcall]

theorem everyMinute_inOrder (n : ℕ) : InOrder newFeedback (everyMinute n) := by
  have hpairs : (everyMinute n).Pairwise (· ≤ ·) := by
    refine List.pairwise_map.mpr (List.pairwise_lt_range.imp ?_)
    intro i j hij
    have hcast : (i : ℝ) ≤ j := Nat.cast_le.mpr hij.le
    linarith
  refine List.pairwise_cons.mpr ⟨?_, hpairs⟩
  intro t ht
  obtain ⟨i, _, rfl⟩ := List.mem_map.mp ht
  show ((0 : ℤ) : ℝ) ≤ 60 * ((i : ℝ) + 1)
  have hi : (0 : ℝ) ≤ i := Nat.cast_nonneg i
  push_cast
  linarith

/-- Ten weeks of calls every minute: the score is still 0.5 where it should be about 0.1743. -/
theorem minute_calls_stop_decay :
    InOrder newFeedback (everyMinute 100799 ++ [6048000]) ∧
      feedbackMinScore ≤ expectedScore newFeedback 6048000 ∧
      ¬ KeepsPace newFeedback (everyMinute 100799) 6048000 := by
  have hall : everyMinute 100799 ++ [6048000] = everyMinute 100800 := by
    rw [everyMinute_succ 100799]
    norm_num
  have hexpected : expectedScore newFeedback 6048000 = 1 / 2 * (9 / 10) ^ 10 := by
    have hweeks : weeks (6048000 - newFeedback.decayedSince) = ((10 : ℕ) : ℝ) := by
      have hsince : newFeedback.decayedSince = 0 := rfl
      rw [hsince, weeks]
      norm_num
    have hscore : newFeedback.score = 1 / 2 := rfl
    rw [expectedScore, hweeks, factor, Real.rpow_natCast, hscore, feedbackDecayPerWeek]
  refine ⟨?_, ?_, ?_⟩
  · rw [hall]
    exact everyMinute_inOrder 100800
  · rw [hexpected, feedbackMinScore]
    norm_num
  · intro h
    obtain ⟨e', hruns, hnear⟩ := h
    obtain ⟨e₁, hkeeps, hscore, _⟩ := minutes_keep_score 100800
    rw [hall, hkeeps, Option.some.injEq] at hruns
    have hlow := (abs_le.mp hnear).2
    rw [← hruns, hscore, hexpected] at hlow
    norm_num at hlow

end Sample
end Engramia.Evaluation
