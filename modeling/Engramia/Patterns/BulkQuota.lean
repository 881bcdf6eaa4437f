import Engramia.Patterns.QuotaRun

/-!
A bulk import against the same patterns learned one by one. Both go through one check, which
refuses a count that has reached a limit: the count before its pattern for a learn, and the count
after its batch for an import. An import that fills the quota exactly is therefore refused, and
so is an empty one when the quota is full.
-/
namespace Engramia.Patterns
open Engramia.Library Engramia.Billing Engramia.Evaluation QuotaState

section Checks
variable (share : ProjectShare) (billing : Option World) (reads : QuotaReads)
variable (auth : Option KeyContext)

/-- The check of a synchronous import of `n` records at a count of `c`. -/
def importPasses (c n : Nat) : Prop :=
  checkQuota share billing reads auth c n = .ok ()

/-- The checks of `n` learn requests in a row, each at the count it finds. -/
def learnsPass : Nat → Nat → Prop
  | _, 0 => True
  | c, n + 1 => checkQuota share billing reads auth c 0 = .ok () ∧ learnsPass (c + 1) n

/-- `_check_subscription_active`, where the billing service is asked at all. -/
def Admitted : Prop :=
  match billing, auth with
  | some w, some auth =>
      checkSubscriptionActive reads.check.clock.now
        (getSubscription reads.check.subscription w auth.tenantId) = .ok ()
  | _, _ => True

/-- The limits that a count is compared with: the share of a project and the plan, or the
limit of the key. -/
def limitsInForce : List Nat :=
  match billing, auth with
  | some w, some auth =>
      ((getSubscription reads.subscription w auth.tenantId).patternsLimit.map share.cap).toList ++
        (getSubscription reads.check.subscription w auth.tenantId).patternsLimit.toList
  | _, auth => (auth.bind KeyContext.maxPatterns).toList

/-- A count at one of the limits and beyond none. -/
def FillsQuota (count : Nat) : Prop :=
  Admitted billing reads auth ∧ count ∈ limitsInForce share billing reads auth ∧
    ∀ limit ∈ limitsInForce share billing reads auth, count ≤ limit

variable {share billing reads auth} {c n : Nat}

theorem checkPatterns_ok_iff {clock : Clock} {sub : BillingSubscription} {current : Nat} :
    checkPatterns clock sub current = .ok () ↔
      checkSubscriptionActive clock.now sub = .ok () ∧
        ∀ limit ∈ sub.patternsLimit.toList, current < limit := by
  rw [checkPatterns]
  cases checkSubscriptionActive clock.now sub with
  | error e => simp [bind, Except.bind]
  | ok u =>
      cases sub.patternsLimit with
      | none => simp [bind, Except.bind]
      | some limit => by_cases h : current < limit <;> simp [bind, Except.bind, h]

theorem checkQuota_ok_iff {count additional : Nat} :
    checkQuota share billing reads auth count additional = .ok () ↔
      Admitted billing reads auth ∧
        ∀ limit ∈ limitsInForce share billing reads auth, count + additional < limit := by
  cases billing with
  | none =>
      cases hkey : auth.bind KeyContext.maxPatterns with
      | none => simp [checkQuota, Admitted, limitsInForce, hkey]
      | some limit =>
          by_cases hfull : limit ≤ count + additional
          · simp [checkQuota, Admitted, limitsInForce, hkey, hfull, Nat.not_lt.mpr hfull]
          · have hroom : count + additional < limit := Nat.lt_of_not_le hfull
            simp [checkQuota, Admitted, limitsInForce, hkey, hfull, hroom]
  | some w =>
      cases auth with
      | none => simp [checkQuota, Admitted, limitsInForce]
      | some auth =>
          have hplan : billingCheckPatterns reads.check w auth.tenantId (count + additional) =
              .ok () ↔ _ := checkPatterns_ok_iff
          simp only [Admitted, limitsInForce, List.mem_append, or_imp, forall_and]
          rw [and_left_comm, ← hplan, checkQuota]
          cases (getSubscription reads.subscription w auth.tenantId).patternsLimit with
          | none =>
              cases billingCheckPatterns reads.check w auth.tenantId (count + additional) with
              | error e => simp
              | ok u => simp
          | some limit =>
              by_cases hfull : share.cap limit ≤ count + additional
              · simp [hfull, Nat.not_lt.mpr hfull]
              · cases billingCheckPatterns reads.check w auth.tenantId (count + additional) with
                | error e => simp [hfull]
                | ok u => simp [hfull, Nat.lt_of_not_le hfull]

theorem learnsPass_iff :
    learnsPass share billing reads auth c n ↔ n = 0 ∨
      Admitted billing reads auth ∧
        ∀ limit ∈ limitsInForce share billing reads auth, c + n ≤ limit := by
  induction n generalizing c with
  | zero => simp [learnsPass]
  | succ n ih =>
      rw [learnsPass, checkQuota_ok_iff, ih]
      constructor
      · intro h
        refine .inr ⟨h.1.1, ?_⟩
        intro limit hlimit
        have hfirst := h.1.2 limit hlimit
        cases h.2 with
        | inl hzero => omega
        | inr hlater =>
            have hlast := hlater.2 limit hlimit
            omega
      · intro h
        cases h with
        | inl hzero => cases hzero
        | inr hall =>
            refine ⟨⟨hall.1, ?_⟩, .inr ⟨hall.1, ?_⟩⟩
            · intro limit hlimit
              have hlast := hall.2 limit hlimit
              omega
            · intro limit hlimit
              have hlast := hall.2 limit hlimit
              omega

/-- Import and learns agree unless the batch fills the quota exactly, or is empty and comes when
the quota is full or the account is not admitted. -/
theorem import_agrees_iff (share : ProjectShare) (billing : Option World) (reads : QuotaReads)
    (auth : Option KeyContext) (c n : Nat) :
    (importPasses share billing reads auth c n ↔ learnsPass share billing reads auth c n) ↔
      (n = 0 → Admitted billing reads auth ∧
        ∀ limit ∈ limitsInForce share billing reads auth, c < limit) ∧
        (0 < n → ¬ FillsQuota share billing reads auth (c + n)) := by
  rw [importPasses, checkQuota_ok_iff, learnsPass_iff]
  cases n with
  | zero => simp
  | succ n =>
      simp only [Nat.succ_ne_zero, false_or, false_implies, true_and, Nat.succ_pos, true_implies]
      constructor
      · intro hsame hfills
        have himport := hsame.mpr ⟨hfills.1, hfills.2.2⟩
        exact Nat.lt_irrefl _ (himport.2 _ hfills.2.1)
      · intro hnot
        constructor
        · intro himport
          exact ⟨himport.1, fun limit hlimit => Nat.le_of_lt (himport.2 limit hlimit)⟩
        · intro hlearns
          refine ⟨hlearns.1, fun limit hlimit => Nat.lt_of_le_of_ne (hlearns.2 limit hlimit) ?_⟩
          intro heq
          exact hnot ⟨hlearns.1, heq ▸ hlimit, hlearns.2⟩

/-- A key that may have one pattern, and its first. -/
theorem first_import_refused :
    ¬ (importPasses fourFifths none restReads (some (acmeKey "p")) 0 1 ↔
      learnsPass fourFifths none restReads (some (acmeKey "p")) 0 1) := by
  intro hsame
  have himport := hsame.mpr ⟨rfl, trivial⟩
  cases himport

end Checks

section Runs
variable {share : ProjectShare} {billing : Option World} {reads : QuotaReads}
variable {auth : KeyContext} {s : QuotaState} {key : String}

/-- A learn request of a new pattern, its check and its write. -/
def learnRequest (auth : KeyContext) (reads : QuotaReads) (key : String) : List QuotaAction :=
  [.restLearn 0 auth reads, .write 0 (some key) none]

theorem learn_passed (hfree : s.inHand.get? 0 = none) (hnew : ⟨auth.projectId, key⟩ ∉ s.rows)
    (hok : checkQuota share billing reads (some auth) (s.countPatterns auth.projectId) 0 =
      .ok ()) :
    exec (step share billing auth.tenantId) s (learnRequest auth reads key) =
      { s with rows := s.rows ++ [⟨auth.projectId, key⟩] } := by
  have htaken : step share billing auth.tenantId s (.restLearn 0 auth reads) =
      s.hold (s.inHand.set 0 ⟨auth, .learn⟩) := by
    simp [step, letsIn, hok, takeIn, hfree]
  have hback : (s.inHand.set 0 ⟨auth, .learn⟩).discard (· = 0) = s.inHand := by
    rw [OrderedDict.discard_set_of_discarded (by decide), OrderedDict.discard_of_get?_none hfree]
  rw [learnRequest, exec_cons, exec_cons, exec_nil, htaken]
  simp [step, hold, OrderedDict.get?_set, writeNext, hback, deletePattern, savePattern, hnew]

theorem learn_refused {e : QuotaError} (hfree : s.inHand.get? 0 = none)
    (herror : checkQuota share billing reads (some auth) (s.countPatterns auth.projectId) 0 =
      .error e) :
    exec (step share billing auth.tenantId) s (learnRequest auth reads key) = s := by
  simp [learnRequest, step, letsIn, herror, takeIn, hfree]

/-- Learn requests in a row store at most one pattern each, and store them all exactly if
every check passes. -/
theorem learns_stored (hfree : s.inHand.get? 0 = none) {keys : List String} (hkeys : keys.Nodup)
    (hnew : ∀ key ∈ keys, ⟨auth.projectId, key⟩ ∉ s.rows) :
    let s' := exec (step share billing auth.tenantId) s (keys.flatMap (learnRequest auth reads))
    s'.countPatterns auth.projectId ≤ s.countPatterns auth.projectId + keys.length ∧
      (s'.countPatterns auth.projectId = s.countPatterns auth.projectId + keys.length ↔
        learnsPass share billing reads (some auth) (s.countPatterns auth.projectId)
          keys.length) := by
  induction keys generalizing s with
  | nil => simp [learnsPass]
  | cons key keys ih =>
      obtain ⟨hfirst, hrest⟩ := List.nodup_cons.mp hkeys
      have hothers : ∀ k ∈ keys, ⟨auth.projectId, k⟩ ∉ s.rows := fun k hk =>
        hnew k (List.mem_cons_of_mem key hk)
      simp only [List.flatMap_cons, exec_append, List.length_cons, learnsPass]
      cases hcheck : checkQuota share billing reads (some auth)
          (s.countPatterns auth.projectId) 0 with
      | error e =>
          rw [learn_refused hfree hcheck]
          have hbound := (ih hfree hrest hothers).1
          constructor
          · omega
          · constructor
            · intro hall
              omega
            · intro hpass
              cases hpass.1
      | ok u =>
          rw [learn_passed hfree (hnew key List.mem_cons_self) hcheck]
          have hcount : countPatterns { s with rows := s.rows ++ [⟨auth.projectId, key⟩] }
              auth.projectId = s.countPatterns auth.projectId + 1 := by
            simp [countPatterns, List.countP_append]
          have hlater : ∀ k ∈ keys,
              ⟨auth.projectId, k⟩ ∉ s.rows ++ [⟨auth.projectId, key⟩] := by
            intro k hk hmem
            cases List.mem_append.mp hmem with
            | inl hold => exact hothers k hk hold
            | inr hlast =>
                cases List.mem_singleton.mp hlast
                exact hfirst hk
          have hstep := ih (s := { s with rows := s.rows ++ [⟨auth.projectId, key⟩] })
            hfree hrest hlater
          rw [hcount, Nat.add_assoc, Nat.add_comm 1] at hstep
          refine ⟨hstep.1, hstep.2.trans ?_⟩
          exact ⟨fun hpass => ⟨rfl, hpass⟩, fun hpass => hpass.2⟩

theorem import_letIn_iff {id : Nat} {records : List (Option String)} {overwrite : Bool} :
    (s.letsIn share billing (.restImport id auth reads records overwrite)).isSome = true ↔
      importPasses share billing reads (some auth) (s.countPatterns auth.projectId)
        records.length := by
  rw [letsIn, importPasses]
  cases checkQuota share billing reads (some auth) (s.countPatterns auth.projectId)
      records.length with
  | error e => simp
  | ok u => simp

end Runs

end Engramia.Patterns
