import Engramia.Governance.ErasureLoop

/-!
Whether the deletion of a tenant is complete. Only the projects that are not marked
deleted are gone through, so a row is reached through one of them or not at all; rows of
the tenant itself, its credentials among them, are reached by nothing. Rows of other
tenants are never touched.
-/
namespace Engramia.Governance
open Engramia.Library

namespace Database
variable {storage : ScopeStorage} {now : Int} {tenantId : String} {db db' : Database}
variable {projectIds : List String} {anonymiseUsers : Bool} {reason : Option String}

/-- A key that is let in: by its row, or by the cache without a look at the row. -/
def Usable (now : Int) (db : Database) (r : ApiKeyRow) : Prop :=
  (r.revokedAt = none ∧ ∀ expiry, r.expiresAt = some expiry → now < expiry) ∨
    r.keyHash ∈ db.keyCache

/-- Nothing of the tenant remains, can be used or tells about a person. -/
structure Erased (now : Int) (tenantId : String) (db : Database) : Prop where
  data : ∀ r ∈ db.memoryData, r.tenantId ≠ tenantId
  embeddings : ∀ r ∈ db.memoryEmbeddings, r.tenantId ≠ tenantId
  jobs : ∀ r ∈ db.jobs, r.tenantId ≠ tenantId
  keys : ∀ r ∈ db.apiKeys.rows, r.tenantId = tenantId → ¬ Usable now db r
  credentials : ∀ r ∈ db.credentials, r.tenantId = tenantId → r.status ≠ "active"
  audit : ∀ r ∈ db.auditLog, r.tenantId = tenantId → r.detail = none

/-- The rows of the other tenants are the same, in every table. -/
structure OthersKept (tenantId : String) (db db' : Database) : Prop where
  data : (db'.memoryData.filter fun r => r.tenantId ≠ tenantId) =
    db.memoryData.filter fun r => r.tenantId ≠ tenantId
  embeddings : (db'.memoryEmbeddings.filter fun r => r.tenantId ≠ tenantId) =
    db.memoryEmbeddings.filter fun r => r.tenantId ≠ tenantId
  jobs : (db'.jobs.filter fun r => r.tenantId ≠ tenantId) =
    db.jobs.filter fun r => r.tenantId ≠ tenantId
  keys : (db'.apiKeys.rows.filter fun r => r.tenantId ≠ tenantId) =
    db.apiKeys.rows.filter fun r => r.tenantId ≠ tenantId
  credentials : (db'.credentials.filter fun r => r.tenantId ≠ tenantId) =
    db.credentials.filter fun r => r.tenantId ≠ tenantId
  audit : (db'.auditLog.filter fun r => r.tenantId ≠ tenantId) =
    db.auditLog.filter fun r => r.tenantId ≠ tenantId
  projects : (db'.projects.rows.filter fun r => r.tenantId ≠ tenantId) =
    db.projects.rows.filter fun r => r.tenantId ≠ tenantId
  tenants : (db'.tenants.rows.filter fun r => r.id ≠ tenantId) =
    db.tenants.rows.filter fun r => r.id ≠ tenantId
  cloudUsers : (db'.cloudUsers.rows.filter fun r => r.tenantId ≠ tenantId) =
    db.cloudUsers.rows.filter fun r => r.tenantId ≠ tenantId

/-- All there is to erase hangs on a project of the tenant that is not marked deleted. -/
structure Covered (now : Int) (tenantId : String) (db : Database) : Prop where
  data : ∀ r ∈ db.memoryData, r.tenantId = tenantId → r.projectId ∈ db.liveProjects tenantId
  embeddings : ∀ r ∈ db.memoryEmbeddings, r.tenantId = tenantId →
    r.projectId ∈ db.liveProjects tenantId
  jobs : ∀ r ∈ db.jobs, r.tenantId = tenantId → r.projectId ∈ db.liveProjects tenantId
  keys : ∀ r ∈ db.apiKeys.rows, r.tenantId = tenantId →
    r.projectId ∈ db.liveProjects tenantId ∧ r.revokedAt = none ∨ ¬ Usable now db r
  credentials : ∀ r ∈ db.credentials, r.tenantId = tenantId → r.status ≠ "active"
  audit : ∀ r ∈ db.auditLog, r.tenantId = tenantId → r.detail = none ∨
    ∃ projectId ∈ db.liveProjects tenantId, r.projectId = some projectId

section Reach

theorem inScopes_iff {a b : String} :
    inScopes tenantId projectIds a b = true ↔ a = tenantId ∧ b ∈ projectIds := by
  simp [inScopes, inScope, and_comm]

theorem revokedIn_iff {r : ApiKeyRow} : revokedIn tenantId projectIds r = true ↔
    (r.tenantId = tenantId ∧ r.projectId ∈ projectIds) ∧ r.revokedAt = none := by
  rw [revokedIn, Bool.and_eq_true, inScopes_iff, Option.isNone_iff_eq_none]

theorem auditedIn_iff {r : AuditRow} : auditedIn tenantId projectIds r = true ↔
    r.tenantId = tenantId ∧ ∃ projectId ∈ projectIds, r.projectId = some projectId := by
  rw [auditedIn, List.any_eq_true]
  constructor
  · intro h
    obtain ⟨p, hp, haudited⟩ := h
    rw [audited, Bool.and_eq_true, decide_eq_true_eq, decide_eq_true_eq] at haudited
    exact ⟨haudited.1, p, hp, haudited.2⟩
  · intro h
    obtain ⟨htenant, p, hp, hproject⟩ := h
    refine ⟨p, hp, ?_⟩
    rw [audited, Bool.and_eq_true, decide_eq_true_eq, decide_eq_true_eq]
    exact ⟨htenant, hproject⟩

theorem removedIn_iff {r : ProjectRow} : removedIn tenantId projectIds r = true ↔
    r.id ∈ projectIds ∧ r.tenantId = tenantId ∧ r.deletedAt = none := by
  rw [removedIn, List.any_eq_true]
  simp only [Bool.and_eq_true, decide_eq_true_eq, Option.isNone_iff_eq_none]
  constructor
  · intro h
    obtain ⟨p, hp, hr⟩ := h
    exact ⟨by rw [hr.1.1]; exact hp, hr.1.2, hr.2⟩
  · intro h
    exact ⟨r.id, h.1, ⟨rfl, h.2.1⟩, h.2.2⟩

/-- The rows that are left are not the tenant's where all of them were in the projects. -/
theorem kept_iff {ρ : Type} {tenant project : ρ → String} {rows : List ρ} :
    (∀ r ∈ rows.filter fun r => !inScopes tenantId projectIds (tenant r) (project r),
        tenant r ≠ tenantId) ↔
      ∀ r ∈ rows, tenant r = tenantId → project r ∈ projectIds := by
  constructor
  · intro h r hr htenant
    by_contra hproject
    have hkept : inScopes tenantId projectIds (tenant r) (project r) ≠ true :=
      fun hin => hproject (inScopes_iff.mp hin).2
    exact h r (List.mem_filter.mpr ⟨hr, by simp [hkept]⟩) htenant
  · intro h r hr htenant
    obtain ⟨hmem, hkept⟩ := List.mem_filter.mp hr
    have hin := inScopes_iff.mpr ⟨htenant, h r hmem htenant⟩
    rw [hin] at hkept
    cases hkept

theorem filter_kept {ρ : Type} {tenant project : ρ → String} {rows : List ρ} :
    ((rows.filter fun r => !inScopes tenantId projectIds (tenant r) (project r)).filter
        fun r => tenant r ≠ tenantId) = rows.filter fun r => tenant r ≠ tenantId := by
  rw [List.filter_filter]
  apply List.filter_congr
  intro r _
  by_cases htenant : tenant r = tenantId
  · simp [htenant]
  · have hout : inScopes tenantId projectIds (tenant r) (project r) ≠ true :=
      fun hin => htenant (inScopes_iff.mp hin).1
    simp [htenant, hout]

end Reach

section Keys
variable (h : Cleared .backend now tenantId projectIds db db')
include h

theorem Cleared.usable_of_kept {r : ApiKeyRow} (hr : r ∈ db.apiKeys.rows)
    (hkept : revokedIn tenantId projectIds r ≠ true) : Usable now db' r ↔ Usable now db r := by
  have hcache : r.keyHash ∈ db'.keyCache ↔ r.keyHash ∈ db.keyCache := by
    rw [h.cache]
    constructor
    · exact fun hin => hin.1
    · intro hin
      refine ⟨hin, ?_⟩
      intro r' hr' hrevoked heq
      have hsame := List.inj_on_of_nodup_map db.apiKeys.unique hr' hr heq
      rw [hsame] at hrevoked
      exact hkept hrevoked
  rw [Usable, Usable, hcache]

theorem Cleared.keys_iff :
    (∀ r ∈ db'.apiKeys.rows, r.tenantId = tenantId → ¬ Usable now db' r) ↔
      ∀ r ∈ db.apiKeys.rows, r.tenantId = tenantId →
        r.projectId ∈ projectIds ∧ r.revokedAt = none ∨ ¬ Usable now db r := by
  rw [h.keys]
  constructor
  · intro hout r hr htenant
    by_cases hrevoked : revokedIn tenantId projectIds r = true
    · have hin := revokedIn_iff.mp hrevoked
      exact .inl ⟨hin.1.2, hin.2⟩
    · refine .inr ?_
      rw [← h.usable_of_kept hr hrevoked]
      exact hout r (mem_updateWhere.mpr ⟨r, hr, if_neg hrevoked⟩) htenant
  · intro hcovered r hr htenant
    cases mem_updateWhere_cases hr with
    | inl hnew =>
        obtain ⟨r₀, hr₀, hrevoked, heq⟩ := hnew
        rw [heq]
        intro husable
        cases husable with
        | inl hlive => cases hlive.1
        | inr hcached => exact ((h.cache _).mp hcached).2 r₀ hr₀ hrevoked rfl
    | inr hold =>
        have hkept : revokedIn tenantId projectIds r ≠ true := by
          rw [hold.2]
          exact Bool.false_ne_true
        rw [h.usable_of_kept hold.1 hkept]
        cases hcovered r hold.1 htenant with
        | inl hin => exact absurd (revokedIn_iff.mpr ⟨⟨htenant, hin.1⟩, hin.2⟩) hkept
        | inr hout => exact hout

theorem Cleared.audit_iff :
    (∀ r ∈ db'.auditLog, r.tenantId = tenantId → r.detail = none) ↔
      ∀ r ∈ db.auditLog, r.tenantId = tenantId →
        r.detail = none ∨ ∃ projectId ∈ projectIds, r.projectId = some projectId := by
  rw [h.audit]
  constructor
  · intro hclear r hr htenant
    by_cases haudited : auditedIn tenantId projectIds r = true
    · exact .inr (auditedIn_iff.mp haudited).2
    · exact .inl (hclear r (mem_updateWhere.mpr ⟨r, hr, if_neg haudited⟩) htenant)
  · intro hcovered r hr htenant
    cases mem_updateWhere_cases hr with
    | inl hnew =>
        obtain ⟨_, _, _, heq⟩ := hnew
        rw [heq]
    | inr hold =>
        cases hcovered r hold.1 htenant with
        | inl hnone => exact hnone
        | inr hin =>
            have haudited := auditedIn_iff.mpr ⟨htenant, hin⟩
            rw [hold.2] at haudited
            cases haudited

end Keys

/-- The deletion is complete exactly for the tenants whose data hang on such projects. -/
theorem erased_iff :
    Erased now tenantId (db.deleteTenant .backend now tenantId anonymiseUsers reason).1 ↔
      Covered now tenantId db := by
  have h : Cleared .backend now tenantId (db.liveProjects tenantId) db
      (db.deleteTenant .backend now tenantId anonymiseUsers reason).1 := cleared_deleteTenant
  have hdata := h.data
  have hembeddings := h.embeddings
  rw [keptData] at hdata hembeddings
  constructor
  · intro herased
    exact
      { data := kept_iff.mp (by rw [← hdata]; exact herased.data)
        embeddings := kept_iff.mp (by rw [← hembeddings]; exact herased.embeddings)
        jobs := kept_iff.mp (by rw [← h.jobs]; exact herased.jobs)
        keys := h.keys_iff.mp herased.keys
        credentials := by rw [← h.credentials]; exact herased.credentials
        audit := h.audit_iff.mp herased.audit }
  · intro hcovered
    exact
      { data := by rw [hdata]; exact kept_iff.mpr hcovered.data
        embeddings := by rw [hembeddings]; exact kept_iff.mpr hcovered.embeddings
        jobs := by rw [h.jobs]; exact kept_iff.mpr hcovered.jobs
        keys := h.keys_iff.mpr hcovered.keys
        credentials := by rw [h.credentials]; exact hcovered.credentials
        audit := h.audit_iff.mpr hcovered.audit }

theorem othersKept_deleteTenant :
    OthersKept tenantId db (db.deleteTenant .backend now tenantId anonymiseUsers reason).1 := by
  have h : Cleared .backend now tenantId (db.liveProjects tenantId) db
      (db.deleteTenant .backend now tenantId anonymiseUsers reason).1 := cleared_deleteTenant
  refine ⟨?_, ?_, ?_, ?_, ?_, ?_, ?_, ?_, ?_⟩
  · rw [h.data]
    exact filter_kept
  · rw [h.embeddings]
    exact filter_kept
  · rw [h.jobs]
    exact filter_kept
  · rw [h.keys]
    apply filter_updateWhere
    intro r hr
    simp [(revokedIn_iff.mp hr).1.1]
  · rw [h.credentials]
  · rw [h.audit]
    apply filter_updateWhere
    intro r hr
    simp [(auditedIn_iff.mp hr).1]
  · rw [h.projects]
    apply filter_updateWhere
    intro r hr
    simp [(removedIn_iff.mp hr).2.1]
  · rw [tenants_deleteTenant]
    apply filter_updateWhere
    intro r hr
    simp only [Bool.and_eq_true, decide_eq_true_eq] at hr
    simp [hr.1]
  · cases anonymiseUsers with
    | false => rw [cloudUsers_deleteTenant_kept]
    | true =>
        rw [cloudUsers_deleteTenant]
        apply filter_updateWhere
        intro r hr
        simp only [toAnonymise, Bool.and_eq_true, decide_eq_true_eq] at hr
        simp [anonymised, hr.1]

end Database

end Engramia.Governance
