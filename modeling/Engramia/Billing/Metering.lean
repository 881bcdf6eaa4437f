import Engramia.Billing.Subscription

/-!
The monthly usage counters of the metric `eval_runs`.
-/
namespace Engramia.Billing

open Engramia.Library

def onCounter (tenantId : String) (period : Period) (c : UsageCounter) : Bool :=
  c.tenantId == tenantId && c.metric == metricEvalRuns && c.period == period

/-- `UsageMeter.get_count` for `eval_runs`. -/
def getCount (fails : Bool) (w : World) (tenantId : String) (period : Period) : Nat :=
  if fails then 0
  else ((w.usageCounters.find? (onCounter tenantId period)).map (·.count)).getD 0

/-- `UsageMeter.get_overage_units`, on the counter value it reads. -/
def overageUnits (count limit : Nat) : Nat := count - limit

/-- `UsageMeter.increment` for `eval_runs`; a failing statement is logged. -/
def increment (fails : Bool) (w : World) (tenantId : String) (period : Period) : World :=
  if fails then w
  else
    { w with
      usageCounters :=
        insertOnConflict (onCounter tenantId period) (fun c => { c with count := c.count + 1 })
          ⟨tenantId, metricEvalRuns, period, 1⟩ w.usageCounters }

def nextPeriod (p : Period) : Period :=
  if p.month = 12 then ⟨p.year + 1, 1⟩ else ⟨p.year, p.month + 1⟩

theorem onCounter_iff {tenantId : String} {period : Period} {c : UsageCounter} :
    onCounter tenantId period c = true ↔
      c.tenantId = tenantId ∧ c.metric = metricEvalRuns ∧ c.period = period := by
  simp [onCounter, and_assoc]

theorem getCount_increment (w : World) (tenantId : String) (period : Period) (t : String)
    (p : Period) :
    getCount false (increment false w tenantId period) t p =
      getCount false w t p + if t = tenantId ∧ p = period then 1 else 0 := by
  have hkeep (c : UsageCounter) :
      onCounter t p { c with count := c.count + 1 } = onCounter t p c := rfl
  simp only [getCount, increment, Bool.false_eq_true, if_false]
  by_cases hsame : t = tenantId ∧ p = period
  · obtain ⟨rfl, rfl⟩ := hsame
    rw [find?_insertOnConflict_self]
    · cases w.usageCounters.find? (onCounter t p) with
      | none => simp
      | some c => simp
    · exact fun c hc => hc
    · exact onCounter_iff.mpr ⟨rfl, rfl, rfl⟩
  · rw [find?_insertOnConflict_other, if_neg hsame, Nat.add_zero]
    · intro c hc
      obtain ⟨htenant, -, hperiod⟩ := onCounter_iff.mp hc
      rw [← Bool.not_eq_true, onCounter_iff]
      exact fun hon => hsame ⟨hon.1.symm.trans htenant, hon.2.2.symm.trans hperiod⟩
    · intro c hc
      obtain ⟨htenant, -, hperiod⟩ := onCounter_iff.mp hc
      rw [← Bool.not_eq_true, hkeep, onCounter_iff]
      exact fun hon => hsame ⟨hon.1.symm.trans htenant, hon.2.2.symm.trans hperiod⟩
    · rw [← Bool.not_eq_true, onCounter_iff]
      exact fun hon => hsame ⟨hon.1.symm, hon.2.2.symm⟩

end Engramia.Billing
