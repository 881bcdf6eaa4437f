import Engramia.Evaluation.Paths

/-!
Synchronous evaluations side by side. A request checks the quota, waits for its
evaluation, and counts it afterwards, and other requests of the tenant may do any of
this in between. One step of one request is one step of the machine.

The counter is bounded by the limit, or by the budget cap where overage is on. What
a state can still grow by is the number of requests let in, so the bound survives
however these finish exactly when the counter with all of them is within it.
-/
namespace Engramia.Evaluation
open Engramia.Library Engramia.Billing Engramia.Jobs

/-- The requests of a tenant that the quota check has let in, by what they wait for. -/
structure EvalGate where
  world : World
  checked : List Nat
  evaluated : List Nat

inductive GateStep where
  | check (id : Nat) (reads : CheckReads)
  | evaluate (id : Nat) (returned : Bool)
  | increment (id : Nat) (fails : Bool)

/-- `overage` of `check_eval_runs`, in whole blocks. -/
def overageSpend (o : OverageSettings) (limit count : Nat) : Nat :=
  (count - limit) / o.unitSize * o.pricePerUnitCents

section Gate
variable (tenantId : String) (period : Period)

/-- A check of the month, whenever in the month it is made. -/
def CheckReads.inMonth (reads : CheckReads) : CheckReads :=
  { reads with clock := ⟨reads.clock.now, period⟩ }

/-- The check of a new request lets it in. -/
def LetIn (s : EvalGate) (id : Nat) (reads : CheckReads) : Prop :=
  id ∉ s.checked ∧ id ∉ s.evaluated ∧
    billingCheckEvalRuns (reads.inMonth period) s.world tenantId = .ok ()

instance (s : EvalGate) (id : Nat) (reads : CheckReads) :
    Decidable (LetIn tenantId period s id reads) :=
  inferInstanceAs (Decidable (_ ∧ _ ∧ _))

def gateStep (s : EvalGate) : GateStep → EvalGate
  | .check id reads =>
      if LetIn tenantId period s id reads then { s with checked := id :: s.checked } else s
  | .evaluate id returned =>
      if id ∈ s.checked then
        { s with
          checked := s.checked.erase id
          evaluated := if returned then id :: s.evaluated else s.evaluated }
      else s
  | .increment id fails =>
      if id ∈ s.evaluated then
        { s with
          world := increment fails s.world tenantId period
          evaluated := s.evaluated.erase id }
      else s

/-- The evaluations counted in the month. -/
def counted (s : EvalGate) : Nat := getCount false s.world tenantId period

/-- The evaluations that may yet be counted as well. -/
def committed (s : EvalGate) : Nat :=
  counted tenantId period s + s.checked.length + s.evaluated.length

/-- At most the limit without overage; with a budget cap, less than a unit price above it. -/
def WithinQuota (w : World) (count : Nat) : Prop :=
  match (getSubscription {} w tenantId).evalRunsLimit with
  | none => True
  | some limit =>
      match (getOverageSettings false w tenantId).filter (·.enabled) with
      | none => count ≤ limit
      | some o =>
          match o.budgetCapCents with
          | none => True
          | some cap => (overageSpend o limit count : Int) < cap + o.pricePerUnitCents

def CounterBounded (s : EvalGate) : Prop :=
  WithinQuota tenantId s.world (counted tenantId period s)

/-- A step by which a request that was let in goes on. -/
def GateStep.Finishes : GateStep → Prop
  | .check _ _ => False
  | _ => True

/-- The bound holds however the requests let in are finished. -/
def StaysBounded (s : EvalGate) : Prop :=
  ∀ rest : List GateStep, (∀ a ∈ rest, a.Finishes) →
    Always (gateStep tenantId period) (CounterBounded tenantId period) s rest

/-- A check lets a request in only if there is room for it beside all those let in. -/
def HasRoom (s : EvalGate) : GateStep → Prop
  | .check id reads => LetIn tenantId period s id reads →
      WithinQuota tenantId s.world (committed tenantId period s + 1)
  | _ => True

end Gate

variable {tenantId : String} {period : Period} {s : EvalGate} {a : GateStep} {w : World}

theorem overageSpend_mono (o : OverageSettings) (limit : Nat) {m n : Nat} (h : m ≤ n) :
    overageSpend o limit m ≤ overageSpend o limit n :=
  Nat.mul_le_mul_right _ (Nat.div_le_div_right (Nat.sub_le_sub_right h limit))

theorem WithinQuota.mono {m n : Nat} (h : WithinQuota tenantId w n) (hmn : m ≤ n) :
    WithinQuota tenantId w m := by
  rw [WithinQuota] at h ⊢
  cases hlimit : (getSubscription {} w tenantId).evalRunsLimit with
  | none => trivial
  | some limit =>
      cases hoverage : (getOverageSettings false w tenantId).filter (·.enabled) with
      | none =>
          simp only [hlimit, hoverage] at h
          exact hmn.trans h
      | some o =>
          simp only [hlimit, hoverage] at h
          cases hcap : o.budgetCapCents with
          | none => simp only [hcap]
          | some cap =>
              simp only [hcap] at h ⊢
              have hspend := overageSpend_mono o limit hmn
              omega

theorem withinQuota_increment (fails : Bool) (n : Nat) :
    WithinQuota tenantId (increment fails w tenantId period) n ↔ WithinQuota tenantId w n := by
  cases fails <;> exact Iff.rfl

section Steps

theorem committed_mk (checked evaluated : List Nat) :
    committed tenantId period ⟨w, checked, evaluated⟩ =
      getCount false w tenantId period + checked.length + evaluated.length :=
  rfl

theorem committed_check (id : Nat) (reads : CheckReads) :
    committed tenantId period (gateStep tenantId period s (.check id reads)) =
      committed tenantId period s + if LetIn tenantId period s id reads then 1 else 0 := by
  rw [gateStep]
  by_cases h : LetIn tenantId period s id reads
  · rw [if_pos h, if_pos h, committed_mk, List.length_cons, committed, counted]
    omega
  · rw [if_neg h, if_neg h, Nat.add_zero]

theorem committed_finishes (ha : a.Finishes) :
    committed tenantId period (gateStep tenantId period s a) ≤ committed tenantId period s := by
  cases a with
  | check id reads => exact ha.elim
  | evaluate id returned =>
      rw [gateStep]
      by_cases h : id ∈ s.checked
      · have hlen := List.length_erase_of_mem h
        have hpos := List.length_pos_of_mem h
        rw [if_pos h, committed_mk, hlen, committed, counted]
        cases returned with
        | true =>
            rw [if_pos rfl, List.length_cons]
            omega
        | false =>
            rw [if_neg Bool.false_ne_true]
            omega
      · rw [if_neg h]
  | increment id fails =>
      rw [gateStep]
      by_cases h : id ∈ s.evaluated
      · have hlen := List.length_erase_of_mem h
        have hpos := List.length_pos_of_mem h
        rw [if_pos h, committed_mk, hlen, committed, counted]
        cases fails with
        | true =>
            show getCount false s.world tenantId period + _ + _ ≤ _
            omega
        | false =>
            rw [getCount_increment, if_pos ⟨rfl, rfl⟩]
            omega
      · rw [if_neg h]

theorem withinQuota_step (n : Nat) :
    WithinQuota tenantId (gateStep tenantId period s a).world n ↔
      WithinQuota tenantId s.world n := by
  cases a with
  | check id reads =>
      rw [gateStep]
      split <;> exact Iff.rfl
  | evaluate id returned =>
      rw [gateStep]
      split <;> exact Iff.rfl
  | increment id fails =>
      rw [gateStep]
      split
      · exact withinQuota_increment fails n
      · exact Iff.rfl

/-- Everything let in is within the quota. -/
def AllWithin (tenantId : String) (period : Period) (s : EvalGate) : Prop :=
  WithinQuota tenantId s.world (committed tenantId period s)

theorem AllWithin.bounded (h : AllWithin tenantId period s) : CounterBounded tenantId period s :=
  h.mono (by rw [committed]; omega)

theorem AllWithin.finishes (h : AllWithin tenantId period s) (ha : a.Finishes) :
    AllWithin tenantId period (gateStep tenantId period s a) :=
  ((withinQuota_step _).mpr h).mono (committed_finishes ha)

theorem allWithin_step (h : AllWithin tenantId period s) :
    AllWithin tenantId period (gateStep tenantId period s a) ↔ HasRoom tenantId period s a := by
  cases a with
  | check id reads =>
      rw [AllWithin, committed_check, withinQuota_step, HasRoom]
      by_cases hlet : LetIn tenantId period s id reads
      · rw [if_pos hlet]
        exact ⟨fun hroom _ => hroom, fun hroom => hroom hlet⟩
      · rw [if_neg hlet, Nat.add_zero]
        exact iff_of_true h fun hlet' => absurd hlet' hlet
  | evaluate id returned => exact iff_of_true (h.finishes trivial) trivial
  | increment id fails => exact iff_of_true (h.finishes trivial) trivial

theorem exists_finish (s : EvalGate) : ∃ rest : List GateStep, (∀ a ∈ rest, a.Finishes) ∧
    counted tenantId period (exec (gateStep tenantId period) s rest) =
      committed tenantId period s ∧
    ∀ n, WithinQuota tenantId (exec (gateStep tenantId period) s rest).world n ↔
      WithinQuota tenantId s.world n := by
  obtain ⟨w, checked, evaluated⟩ := s
  induction checked generalizing evaluated with
  | cons id checked ih =>
      obtain ⟨rest, hrest, hcount, hquota⟩ := ih (id :: evaluated)
      have hstep : gateStep tenantId period ⟨w, id :: checked, evaluated⟩ (.evaluate id true) =
          ⟨w, checked, id :: evaluated⟩ := by
        simp [gateStep]
      refine ⟨.evaluate id true :: rest, ?_, ?_, ?_⟩
      · exact List.forall_mem_cons.mpr ⟨trivial, hrest⟩
      · rw [exec_cons, hstep, hcount, committed_mk, committed_mk, List.length_cons,
          List.length_cons]
        omega
      · rw [exec_cons, hstep]
        exact hquota
  | nil =>
      induction evaluated generalizing w with
      | nil =>
          refine ⟨[], ?_, rfl, fun n => Iff.rfl⟩
          intro a ha
          exact absurd ha List.not_mem_nil
      | cons id evaluated ih =>
          obtain ⟨rest, hrest, hcount, hquota⟩ := ih (increment false w tenantId period)
          have hstep : gateStep tenantId period ⟨w, [], id :: evaluated⟩ (.increment id false) =
              ⟨increment false w tenantId period, [], evaluated⟩ := by
            simp [gateStep]
          refine ⟨.increment id false :: rest, ?_, ?_, ?_⟩
          · exact List.forall_mem_cons.mpr ⟨trivial, hrest⟩
          · rw [exec_cons, hstep, hcount, committed_mk, committed_mk, getCount_increment,
              if_pos ⟨rfl, rfl⟩, List.length_cons]
            omega
          · intro n
            rw [exec_cons, hstep, hquota n]
            exact withinQuota_increment false n

theorem staysBounded_iff : StaysBounded tenantId period s ↔ AllWithin tenantId period s := by
  constructor
  · intro h
    obtain ⟨rest, hrest, hcount, hquota⟩ := @exists_finish tenantId period s
    have hlast := (h rest hrest).last
    rw [CounterBounded, hcount, hquota] at hlast
    exact hlast
  · intro h rest hrest
    apply Always.mono (fun s => AllWithin.bounded)
    induction rest generalizing s with
    | nil => exact h
    | cons a rest ih =>
        rw [List.forall_mem_cons] at hrest
        exact ⟨h, ih (h.finishes hrest.1) hrest.2⟩

end Steps

theorem uninterrupted_world {τ J : Type} (service : JobService τ J) (req : EvaluateRequest τ J)
    (id : Nat) (hperm : req.permitted = true) (hsync : req.respondAsync = none)
    (hmonth : req.reads.clock.period = req.period) :
    (exec (gateStep req.tenantId req.period) ⟨w, [], []⟩
      [.check id req.reads,
        .evaluate id (match req.evaluated with | .returned _ => true | _ => false),
        .increment id req.incrementFails]).world =
      (evaluate ⟨w, service⟩ req).1.world := by
  have hreads : req.reads.inMonth req.period = req.reads := by
    rw [CheckReads.inMonth, ← hmonth]
  rw [evaluate, if_neg (not_not_intro hperm), hsync]
  cases hcheck : billingCheckEvalRuns req.reads w req.tenantId with
  | error e =>
      have hout : ¬ LetIn req.tenantId req.period ⟨w, [], []⟩ id req.reads := by
        intro h
        have hok := h.2.2
        rw [hreads, hcheck] at hok
        cases hok
      simp [exec, gateStep, hout]
  | ok u =>
      have hin : LetIn req.tenantId req.period ⟨w, [], []⟩ id req.reads :=
        ⟨List.not_mem_nil, List.not_mem_nil, by rw [hreads]; exact hcheck⟩
      cases hres : req.evaluated with
      | providerError => simp [exec, gateStep, hin]
      | raised error => simp [exec, gateStep, hin]
      | returned result => simp [exec, gateStep, hin]

/-- Along a run, the bound holds in every state and however the requests let in there
are finished, exactly when the run starts with everything let in within the quota and
every check of it lets a request in only where there is room. -/
theorem eval_quota_run_iff (tenantId : String) (period : Period) (s : EvalGate)
    (run : List GateStep) :
    Always (gateStep tenantId period) (StaysBounded tenantId period) s run ↔
      WithinQuota tenantId s.world (committed tenantId period s) ∧
        AllSteps (gateStep tenantId period) (HasRoom tenantId period) s run := by
  constructor
  · intro h
    have hwithin : Always (gateStep tenantId period) (AllWithin tenantId period) s run :=
      h.mono fun s => staysBounded_iff.mp
    exact ⟨hwithin.head, (always_iff_allSteps (fun s a => allWithin_step) hwithin.head run).mp
      hwithin⟩
  · intro h
    have hstart : AllWithin tenantId period s := h.1
    exact ((always_iff_allSteps (fun s a => allWithin_step) hstart run).mpr h.2).mono
      fun s => staysBounded_iff.mpr

section Sample

/-- One evaluation short of the limit. -/
def nearlyUsedUp : EvalGate where
  world :=
    { acmePaidWorld with usageCounters := [⟨"acme", metricEvalRuns, ⟨2026, 1⟩, 49999⟩] }
  checked := []
  evaluated := []

/-- Two requests check the quota before either is counted. -/
def sideBySide : List GateStep :=
  [.check 1 acmeReads, .check 2 acmeReads, .evaluate 1 true, .evaluate 2 true,
    .increment 1 false, .increment 2 false]

/-- The limit is 50000 and the counter ends at 50001. -/
theorem side_by_side_exceeds_limit :
    CounterBounded "acme" ⟨2026, 1⟩ nearlyUsedUp ∧
    ¬ Always (gateStep "acme" ⟨2026, 1⟩) (CounterBounded "acme" ⟨2026, 1⟩) nearlyUsedUp
      sideBySide := by
  have hlimit : ∀ n, WithinQuota "acme" nearlyUsedUp.world n ↔ n ≤ 50000 := by
    intro n
    have hsub : (getSubscription {} nearlyUsedUp.world "acme").evalRunsLimit = some 50000 := by
      decide +kernel
    have hoff : (getOverageSettings false nearlyUsedUp.world "acme").filter (·.enabled) = none := by
      decide +kernel
    simp only [WithinQuota, hsub, hoff]
  constructor
  · rw [CounterBounded, hlimit]
    decide +kernel
  · have hcount : counted "acme" ⟨2026, 1⟩ (exec (gateStep "acme" ⟨2026, 1⟩) nearlyUsedUp
        sideBySide) = 50001 := by decide +kernel
    have hworld : ∀ n, WithinQuota "acme" (exec (gateStep "acme" ⟨2026, 1⟩) nearlyUsedUp
        sideBySide).world n ↔ WithinQuota "acme" nearlyUsedUp.world n := by
      intro n
      simp only [sideBySide, exec_cons, exec_nil, withinQuota_step]
    have hover : ¬ CounterBounded "acme" ⟨2026, 1⟩ (exec (gateStep "acme" ⟨2026, 1⟩) nearlyUsedUp
        sideBySide) := by
      rw [CounterBounded, hcount, hworld, hlimit]
      decide
    exact not_always_of_last hover

end Sample

end Engramia.Evaluation
