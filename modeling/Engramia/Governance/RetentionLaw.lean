import Engramia.Governance.Retention

/-!
The clean-up against its law. The query deletes by the expiry column and the scan by the
policy, so each keeps the law where the other setting does not matter, and the two agree
with it exactly on the stores in which that is so of every pattern. What `learn` stores
has no expiry of its own, and over a database it is never deleted.
-/
namespace Engramia.Governance
open Engramia.Library Engramia.Storage Engramia.Patterns

section Spec
variable {V : Type} {days : Int} {instant : Instant} {s : Store V} {key : Text} {row : DataRow}

theorem Store.get?_deleteAll (keys : List Text) :
    (s.deleteAll keys).rows.get? key = if key ∈ keys then none else s.rows.get? key := by
  induction keys generalizing s with
  | nil => rfl
  | cons k keys ih =>
      rw [Store.deleteAll, List.foldl_cons]
      show ((s.delete k).deleteAll keys).rows.get? key = _
      rw [ih, Store.delete, OrderedDict.get?_discard]
      by_cases hk : key = k <;> simp [hk]

/-- Deleting keys deletes what the law asks for if they are the keys it asks for. -/
def DeletesExpired (days : Int) (instant : Instant) (s s' : Store V) : Prop :=
  ∀ key row, s'.rows.get? key = some row ↔
    s.rows.get? key = some row ∧ ¬ Expired days instant key row

theorem deletesExpired_deleteAll {keys : List Text} :
    DeletesExpired days instant s (s.deleteAll keys) ↔
      ∀ key row, s.rows.get? key = some row → (key ∈ keys ↔ Expired days instant key row) := by
  constructor
  · intro h key row hrow
    have hkey := h key row
    rw [Store.get?_deleteAll, hrow] at hkey
    by_cases hmem : key ∈ keys
    · rw [if_pos hmem] at hkey
      simp only [reduceCtorEq, true_and, false_iff, not_not] at hkey
      exact ⟨fun _ => hkey, fun _ => hmem⟩
    · rw [if_neg hmem] at hkey
      simp only [true_and, true_iff] at hkey
      exact ⟨fun hin => absurd hin hmem, fun hexp => absurd hexp hkey⟩
  · intro h key row
    rw [Store.get?_deleteAll]
    by_cases hmem : key ∈ keys
    · rw [if_pos hmem]
      simp only [reduceCtorEq, false_iff, not_and, not_not]
      intro hrow
      exact (h key row hrow).mp hmem
    · rw [if_neg hmem]
      constructor
      · intro hrow
        exact ⟨hrow, fun hexp => hmem ((h key row hrow).mpr hexp)⟩
      · intro hrow
        exact hrow.1

theorem stamp_passed_iff {stamp : UtcStamp} :
    stamp.text ≤ instant.utc.text ↔ (stamp.seconds : ℚ) ≤ instant.now := by
  rw [UtcStamp.text_le_iff, instant.utcFloor, Rat.le_floor_iff]

/-- A pattern's own expiry has passed. -/
def OwnPassed (instant : Instant) (row : DataRow) : Prop :=
  ∃ stamp, row.expiresAt = some stamp ∧ (stamp.seconds : ℚ) ≤ instant.now

theorem mem_expiredRows (hrow : s.rows.get? key = some row) :
    key ∈ s.expiredRows instant ↔ isPattern key = true ∧ OwnPassed instant row := by
  rw [Store.expiredRows, List.mem_map]
  constructor
  · intro h
    obtain ⟨x, hx, rfl⟩ := h
    obtain ⟨hmem, hquery⟩ := List.mem_filter.mp hx
    rw [OrderedDict.get?_eq_some.mpr hmem, Option.some.injEq] at hrow
    rw [← hrow]
    cases hexp : x.2.expiresAt with
    | none =>
        rw [hexp] at hquery
        cases hquery
    | some stamp =>
        simp only [hexp, Bool.and_eq_true, decide_eq_true_eq, stamp_passed_iff] at hquery
        exact ⟨hquery.2, stamp, hexp, hquery.1⟩
  · intro h
    obtain ⟨hpattern, stamp, hexp, hpassed⟩ := h
    refine ⟨(key, row), List.mem_filter.mpr ⟨OrderedDict.get?_eq_some.mp hrow, ?_⟩, rfl⟩
    simp only [hexp, Bool.and_eq_true, decide_eq_true_eq, stamp_passed_iff]
    exact ⟨hpassed, hpattern⟩

/-- A pattern is older than the policy allows. -/
def Outlived (days : Int) (instant : Instant) (row : DataRow) : Prop :=
  ∃ created, row.createdAt = some created ∧ created + days * 86400 < instant.now

theorem outlived_iff :
    Store.outlived days instant row.data = .ok true ↔ Outlived days instant row := by
  rw [Outlived, DataRow.createdAt]
  cases row.data with
  | list => simp [Store.outlived]
  | dict timestamp =>
      cases timestamp with
      | none => simp [Store.outlived]
      | some timestamp =>
          cases timestamp with
          | other => simp [Store.outlived]
          | number seconds =>
              by_cases hpos : 0 < seconds
              · simp [Store.outlived, hpos, lt_sub_iff_add_lt]
              · simp [Store.outlived, hpos]

def Readable (days : Int) (instant : Instant) (row : DataRow) : Prop :=
  ∃ old, Store.outlived days instant row.data = .ok old

theorem scan_ok_iff (keys : List Text) :
    (∃ expired, s.scan days instant keys = .ok expired) ↔
      ∀ key ∈ keys, ∃ old, s.scanKey days instant key = .ok old := by
  induction keys with
  | nil => exact ⟨fun _ _ hk => absurd hk List.not_mem_nil, fun _ => ⟨[], rfl⟩⟩
  | cons key keys ih =>
      rw [List.forall_mem_cons, ← ih, Store.scan]
      cases hkey : s.scanKey days instant key with
      | error e => simp
      | ok old =>
          cases hrest : s.scan days instant keys with
          | error e => simp
          | ok expired => simp

theorem mem_scan {keys expired : List Text} (h : s.scan days instant keys = .ok expired) :
    key ∈ expired ↔ key ∈ keys ∧ s.scanKey days instant key = .ok true := by
  induction keys generalizing expired with
  | nil =>
      rw [Store.scan] at h
      cases h
      simp
  | cons k keys ih =>
      rw [Store.scan] at h
      cases hkey : s.scanKey days instant k with
      | error e =>
          simp only [hkey] at h
          cases h
      | ok old =>
          simp only [hkey] at h
          cases hrest : s.scan days instant keys with
          | error e =>
              simp only [hrest] at h
              cases h
          | ok rest =>
              simp only [hrest, Except.ok.injEq] at h
              subst h
              have hih := ih hrest
              by_cases hk : key = k
              · subst hk
                cases old <;> simp [hih, hkey]
              · cases old <;> simp [hih, hk]

theorem mem_listKeys :
    key ∈ s.listKeys ↔ (∃ row, s.rows.get? key = some row) ∧ Store.scanPrefix <+: key := by
  rw [Store.listKeys, List.mem_insertionSort, List.mem_filter, OrderedDict.mem_keys,
    List.isPrefixOf_iff_prefix]

theorem scanPrefix_of_isPattern (h : isPattern key = true) : Store.scanPrefix <+: key := by
  obtain ⟨rest, hrest⟩ := List.isPrefixOf_iff_prefix.mp h
  exact ⟨'/' :: rest, hrest⟩

theorem scanKey_eq (hrow : s.rows.get? key = some row) :
    s.scanKey days instant key = Store.outlived days instant row.data := by
  rw [Store.scanKey, hrow]

theorem applyPostgres_iff :
    DeletesExpired days instant s (s.applyPostgres instant false).1 ↔
      ∀ key row, s.rows.get? key = some row →
        (isPattern key = true ∧ OwnPassed instant row ↔ Expired days instant key row) := by
  show DeletesExpired days instant s (s.deleteAll (s.expiredRows instant)) ↔ _
  rw [deletesExpired_deleteAll]
  apply forall_congr'
  intro key
  apply forall_congr'
  intro row
  apply imp_congr_right
  intro hrow
  rw [mem_expiredRows hrow]

theorem mem_scan_listKeys {expired : List Text} (hrow : s.rows.get? key = some row)
    (h : s.scan days instant s.listKeys = .ok expired) :
    key ∈ expired ↔ Store.scanPrefix <+: key ∧ Outlived days instant row := by
  rw [mem_scan h, mem_listKeys, scanKey_eq hrow, outlived_iff]
  constructor
  · intro hin
    exact ⟨hin.1.2, hin.2⟩
  · intro hin
    exact ⟨⟨⟨row, hrow⟩, hin.1⟩, hin.2⟩

theorem scan_listKeys_ok_iff :
    (∃ expired, s.scan days instant s.listKeys = .ok expired) ↔
      ∀ key row, s.rows.get? key = some row → Store.scanPrefix <+: key →
        Readable days instant row := by
  rw [scan_ok_iff]
  constructor
  · intro h key row hrow hkey
    have hread := h key (mem_listKeys.mpr ⟨⟨row, hrow⟩, hkey⟩)
    rw [scanKey_eq hrow] at hread
    exact hread
  · intro h key hkey
    obtain ⟨⟨row, hrow⟩, hpre⟩ := mem_listKeys.mp hkey
    rw [scanKey_eq hrow]
    exact h key row hrow hpre

theorem applyStorageScan_iff :
    (∃ out, s.applyStorageScan days instant false = .ok out ∧
        DeletesExpired days instant s out.1) ↔
      ∀ key row, s.rows.get? key = some row →
        (Store.scanPrefix <+: key → Readable days instant row) ∧
          (Store.scanPrefix <+: key ∧ Outlived days instant row ↔
            Expired days instant key row) := by
  rw [Store.applyStorageScan]
  cases hscan : s.scan days instant s.listKeys with
  | error e =>
      constructor
      · intro h
        obtain ⟨out, hout, _⟩ := h
        cases hout
      · intro h
        have hok := scan_listKeys_ok_iff.mpr fun key row hrow => (h key row hrow).1
        rw [hscan] at hok
        obtain ⟨expired, hexpired⟩ := hok
        cases hexpired
  | ok expired =>
      have hread := scan_listKeys_ok_iff.mp ⟨expired, hscan⟩
      have hlaw : DeletesExpired days instant s (s.purged false expired).1 ↔
          ∀ key row, s.rows.get? key = some row →
            (key ∈ expired ↔ Expired days instant key row) :=
        deletesExpired_deleteAll
      simp only [Except.ok.injEq, exists_eq_left']
      rw [hlaw]
      constructor
      · intro h key row hrow
        rw [← mem_scan_listKeys hrow hscan]
        exact ⟨hread key row hrow, h key row hrow⟩
      · intro h key row hrow
        rw [mem_scan_listKeys hrow hscan]
        exact (h key row hrow).2

/-- Nothing about a stored document depends on which way the clean-up goes. -/
structure Settled (days : Int) (instant : Instant) (key : Text) (row : DataRow) : Prop where
  readable : Readable days instant row
  own : isPattern key = true → row.expiresAt.isSome →
    (OwnPassed instant row ↔ Outlived days instant row)
  policy : isPattern key = true → row.expiresAt = none → ∀ created,
    row.createdAt = some created → instant.now < created + days * 86400
  other : isPattern key = false → ¬ Outlived days instant row

theorem expired_of_some {stamp : UtcStamp} (hexp : row.expiresAt = some stamp) :
    Expired days instant key row ↔ isPattern key = true ∧ OwnPassed instant row := by
  simp only [Expired, DataRow.effectiveExpiry, OwnPassed, hexp, Option.some.injEq, exists_eq_left']

theorem expired_of_none (hexp : row.expiresAt = none) :
    Expired days instant key row ↔ isPattern key = true ∧
      ∃ created, row.createdAt = some created ∧ created + days * 86400 ≤ instant.now := by
  simp only [Expired, DataRow.effectiveExpiry, hexp, Option.map_eq_some_iff]
  simp

theorem settled_of_some {stamp : UtcStamp} (hexp : row.expiresAt = some stamp) :
    Settled days instant key row ↔ Readable days instant row ∧
      (Outlived days instant row ↔ isPattern key = true ∧ OwnPassed instant row) := by
  constructor
  · intro h
    refine ⟨h.readable, ?_⟩
    cases hpattern : isPattern key with
    | false => simp [h.other hpattern]
    | true => simp [h.own hpattern (by rw [hexp]; rfl)]
  · intro h
    refine ⟨h.1, ?_, ?_, ?_⟩
    · intro hpattern _
      rw [h.2, hpattern]
      simp
    · intro _ hnone
      rw [hexp] at hnone
      cases hnone
    · intro hpattern hout
      rw [h.2, hpattern] at hout
      cases hout.1

theorem settled_of_none (hexp : row.expiresAt = none) :
    Settled days instant key row ↔ Readable days instant row ∧
      ¬ Outlived days instant row ∧ ¬ Expired days instant key row := by
  rw [expired_of_none hexp]
  constructor
  · intro h
    have hkept : ¬ (isPattern key = true ∧
        ∃ created, row.createdAt = some created ∧ created + days * 86400 ≤ instant.now) := by
      intro hexpired
      obtain ⟨hpattern, created, hcreated, hle⟩ := hexpired
      exact absurd (h.policy hpattern hexp created hcreated) (not_lt.mpr hle)
    refine ⟨h.readable, ?_, hkept⟩
    intro hout
    cases hpattern : isPattern key with
    | false => exact h.other hpattern hout
    | true =>
        obtain ⟨created, hcreated, hlt⟩ := hout
        exact hkept ⟨hpattern, created, hcreated, le_of_lt hlt⟩
  · intro h
    refine ⟨h.1, ?_, ?_, fun _ => h.2.1⟩
    · intro _ hsome
      rw [hexp] at hsome
      cases hsome
    · intro hpattern _ created hcreated
      apply lt_of_not_ge
      intro hle
      exact h.2.2 ⟨hpattern, created, hcreated, hle⟩

theorem settled_iff :
    (isPattern key = true ∧ OwnPassed instant row ↔ Expired days instant key row) ∧
        (Store.scanPrefix <+: key → Readable days instant row) ∧
        (Store.scanPrefix <+: key ∧ Outlived days instant row ↔ Expired days instant key row) ↔
      (Store.scanPrefix <+: key → Settled days instant key row) := by
  by_cases hpre : Store.scanPrefix <+: key
  · cases hexp : row.expiresAt with
    | some stamp =>
        rw [settled_of_some hexp, expired_of_some hexp]
        simp only [hpre, true_and, forall_const]
    | none =>
        have hown : ¬ OwnPassed instant row := by
          intro hown
          obtain ⟨stamp, hstamp, _⟩ := hown
          rw [hexp] at hstamp
          cases hstamp
        rw [settled_of_none hexp]
        simp only [hpre, hown, and_false, false_iff, true_and, forall_const]
        constructor
        · intro h
          exact ⟨h.2.1, fun hout => h.1 (h.2.2.mp hout), h.1⟩
        · intro h
          exact ⟨h.2.2, h.1, fun hout => absurd hout h.2.1, fun hexpired => absurd hexpired h.2.2⟩
  · have hpattern : ¬ isPattern key = true := fun h => hpre (scanPrefix_of_isPattern h)
    have hlaw : ¬ Expired days instant key row := fun h => hpattern h.1
    simp [hpre, hpattern, hlaw]

theorem DeletesExpired.congr {s₁ s₂ : Store V}
    (hsame : ∀ key, s₁.rows.get? key = s₂.rows.get? key) :
    DeletesExpired days instant s s₁ ↔ DeletesExpired days instant s s₂ := by
  simp only [DeletesExpired, hsame]

theorem DeletesExpired.unique {s₁ s₂ : Store V} (h₁ : DeletesExpired days instant s s₁)
    (h₂ : DeletesExpired days instant s s₂) (key : Text) :
    s₁.rows.get? key = s₂.rows.get? key := by
  ext row
  rw [h₁ key row, h₂ key row]

/-- What the clean-up owes a scope: it deletes what has expired, and would have deleted
the same on the other way. -/
def KeepsLaw (m : RetentionManager) (fails : Bool) (tenantId projectId : String)
    (instant : Instant) (s : Store V) : Prop :=
  let days := m.getPolicy fails tenantId projectId
  (∃ out, m.apply fails tenantId projectId instant false s = .ok out ∧
    DeletesExpired days instant s out.1) ∧
  ∃ scanned, s.applyStorageScan days instant false = .ok scanned ∧
    ∀ key, scanned.1.rows.get? key = (s.applyPostgres instant false).1.rows.get? key

theorem keepsLaw_iff (m : RetentionManager) (fails : Bool) (tenantId projectId : String)
    (instant : Instant) (s : Store V) :
    KeepsLaw m fails tenantId projectId instant s ↔
      DeletesExpired (m.getPolicy fails tenantId projectId) instant s
          (s.applyPostgres instant false).1 ∧
        ∃ out, s.applyStorageScan (m.getPolicy fails tenantId projectId) instant false = .ok out ∧
          DeletesExpired (m.getPolicy fails tenantId projectId) instant s out.1 := by
  constructor
  · intro h
    obtain ⟨⟨out, hout, hlaw⟩, scanned, hscanned, hsame⟩ := h
    rw [RetentionManager.apply] at hout
    have hpostgres : DeletesExpired (m.getPolicy fails tenantId projectId) instant s
        (s.applyPostgres instant false).1 := by
      split at hout
      · cases hout
        exact hlaw
      · rw [hscanned] at hout
        cases hout
        exact (DeletesExpired.congr hsame).mp hlaw
    exact ⟨hpostgres, scanned, hscanned, (DeletesExpired.congr hsame).mpr hpostgres⟩
  · intro h
    obtain ⟨hpostgres, scanned, hscanned, hscan⟩ := h
    refine ⟨?_, scanned, hscanned, hscan.unique hpostgres⟩
    rw [RetentionManager.apply]
    split
    · exact ⟨_, rfl, hpostgres⟩
    · exact ⟨scanned, hscanned, hscan⟩

end Spec

section Learned
variable {F : Type} (store : PatternStore F)

/-- The row `learn` writes: its `save_pattern_meta` names no expiry. -/
def learnedRow (record : Record) : DataRow :=
  ⟨.dict (some (.number record.timestamp)), none⟩

/-- The database scope in which a service has stored what it learned. -/
def learnedStore : Store (List F) where
  isPostgres := true
  rows := store.patterns.mapValues fun _ => learnedRow
  embeddings := store.embeddings

theorem learnedStore_row {key : Text} {row : DataRow}
    (hrow : (learnedStore store).rows.get? key = some row) : row.expiresAt = none := by
  rw [learnedStore, OrderedDict.get?_mapValues, Option.map_eq_some_iff] at hrow
  obtain ⟨record, _, rfl⟩ := hrow
  rfl

theorem applyPostgres_learned (instant : Instant) (dryRun : Bool) :
    (learnedStore store).applyPostgres instant dryRun =
      (learnedStore store, ⟨0, dryRun, []⟩) := by
  have hnone : (learnedStore store).expiredRows instant = [] := by
    rw [Store.expiredRows, List.map_eq_nil_iff, List.filter_eq_nil_iff]
    intro x hx
    rw [learnedStore_row store (OrderedDict.get?_eq_some.mpr hx)]
    exact Bool.false_ne_true
  rw [Store.applyPostgres, hnone]
  cases dryRun <;> rfl

end Learned

section Sample

theorem newYear_inRange : UtcStamp.InRange 2026 1 1 0 0 0 := by decide

/-- 2026-01-01T00:00:00Z. -/
def newYear : Instant where
  now := 1767225600
  utc := .of 2026 1 1 0 0 0 newYear_inRange
  utcFloor := by decide +kernel

/-- A project that keeps its patterns for thirty days. -/
def thirtyDays : RetentionManager :=
  ⟨some ⟨[⟨"acme", none⟩], [⟨"p", "acme", some 30⟩]⟩, defaultRetentionDays⟩

def oldPatternKey : Text := patternsPrefix ++ ['a']

/-- A pattern learned more than two years before, without an expiry of its own. -/
def oldPattern : DataRow := ⟨.dict (some (.number 1700000000)), none⟩

def oldPatternStore : Store Unit where
  isPostgres := true
  rows := OrderedDict.empty.set oldPatternKey oldPattern
  embeddings := OrderedDict.empty

end Sample

end Engramia.Governance
