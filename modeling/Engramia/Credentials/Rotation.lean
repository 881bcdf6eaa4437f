import Engramia.Credentials.Coherence

/-!
Rotation and revocation. A write takes effect at once exactly when every key
the caches it does not flush hold for the tenant still belongs to an active
row the write leaves alone, or is the very key it brings in. Runs in which all
writes meet this keep the caches clean, and their calls only ever use current
keys.
-/
namespace Engramia.Credentials

open Engramia.Library

section
variable {B : Type}

/-- A chain or an embedding provider cached for the tenant has the key. -/
def ProvidersHold (s : Byok B) (tenantId key : String) : Prop :=
  (∃ x ∈ s.chains.entries, x.1.1 = tenantId ∧ ∃ e ∈ x.2, e.client.apiKey = key) ∨
  ∃ x ∈ s.embedders.entries, x.1.1 = tenantId ∧ x.2.apiKey = key

/-- A credential the resolver has cached for the tenant has the key. -/
def ResolverHolds (s : Byok B) (tenantId key : String) : Prop :=
  ∃ x ∈ s.resolved.entries, x.1.1 = tenantId ∧ x.2.2.apiKey = key

variable (decrypt : String → Provider → Purpose → B → Option String)

/-- What a write must find for the keys it does not flush. -/
def KeepsKeysBacked (s : Byok B) : CredentialAction B → Prop
  | .create req =>
      req.accepted = true → (upsert s.rows req.upsert).isSome = true →
        ∀ key, ProvidersHold s req.upsert.tenantId key →
          BackedOutside decrypt req.upsert.onSlot s.rows req.upsert.tenantId key ∨
          (decrypt req.upsert.tenantId req.upsert.provider req.upsert.purpose
            req.upsert.blob).map stripText = some key
  | .revoke tenantId id _ =>
      ∀ key, ProvidersHold s tenantId key →
        BackedOutside decrypt (revocable tenantId id) s.rows tenantId key
  | .forceClear tenantId providers _ =>
      tenantId ∈ s.tenants →
        ∀ key, ProvidersHold s tenantId key ∨ ResolverHolds s tenantId key →
          BackedOutside decrypt (clearable tenantId providers) s.rows tenantId key
  | _ => True

end

section Writes
variable {B : Type} {decrypt : String → Provider → Purpose → B → Option String}
  {s : Byok B} {rows : CredentialTable B}

/-- After a write for one tenant that flushes the resolver, the caches are
clean just when the providers' keys are still current. -/
theorem noStale_flushed_iff (h : NoStaleEntry decrypt s) (tenantId : String)
    (hother : ∀ t key, t ≠ tenantId →
      (Current decrypt rows t key ↔ Current decrypt s.rows t key)) :
    NoStaleEntry decrypt (invalidateResolver { s with rows := rows } tenantId) ↔
      ∀ key, ProvidersHold s tenantId key → Current decrypt rows tenantId key := by
  constructor
  · rintro hs key (⟨x, hx, rfl, e, he, rfl⟩ | ⟨x, hx, rfl, rfl⟩)
    · exact hs.chains x hx e he
    · exact hs.embedders x hx
  · intro hkeys
    refine ⟨?_, ?_, ?_⟩
    · intro x hx
      obtain ⟨hmem, hne⟩ := OrderedDict.mem_discard.mp hx
      obtain ⟨htenant, hcurrent⟩ := h.resolved x hmem
      exact ⟨htenant, (hother _ _ (by simpa using hne)).mpr hcurrent⟩
    · intro x hx e he
      by_cases ht : x.1.1 = tenantId
      · subst ht
        exact hkeys _ (.inl ⟨x, hx, rfl, e, he, rfl⟩)
      · exact (hother _ _ ht).mpr (h.chains x hx e he)
    · intro x hx
      by_cases ht : x.1.1 = tenantId
      · subst ht
        exact hkeys _ (.inr ⟨x, hx, rfl, rfl⟩)
      · exact (hother _ _ ht).mpr (h.embedders x hx)

theorem noStale_unflushed_iff (h : NoStaleEntry decrypt s) (tenantId : String)
    (hother : ∀ t key, t ≠ tenantId →
      (Current decrypt rows t key ↔ Current decrypt s.rows t key)) :
    NoStaleEntry decrypt { s with rows := rows } ↔
      ∀ key, ProvidersHold s tenantId key ∨ ResolverHolds s tenantId key →
        Current decrypt rows tenantId key := by
  constructor
  · rintro hs key (hproviders | ⟨x, hx, rfl, rfl⟩)
    · have hflushed : NoStaleEntry decrypt (invalidateResolver { s with rows := rows } tenantId) :=
        ⟨hs.resolved.discard _, hs.chains, hs.embedders⟩
      exact (noStale_flushed_iff h tenantId hother).mp hflushed key hproviders
    · exact (hs.resolved x hx).2
  · intro hkeys
    have hflushed := (noStale_flushed_iff h tenantId hother).mpr fun key hk => hkeys key (.inl hk)
    refine ⟨?_, hflushed.chains, hflushed.embedders⟩
    intro x hx
    obtain ⟨htenant, hcurrent⟩ := h.resolved x hx
    refine ⟨htenant, ?_⟩
    by_cases ht : x.1.1 = tenantId
    · subst ht
      exact hkeys _ (.inr ⟨x, hx, rfl, rfl⟩)
    · exact (hother _ _ ht).mpr hcurrent

theorem current_update_other {tenantId : String} {p : StoredCredential B → Bool}
    {f : StoredCredential B → StoredCredential B} (hf : ∀ r, (f r).id = r.id)
    (hp : ∀ r, p r = true → r.tenantId = tenantId)
    (htenant : ∀ r, (f r).tenantId = r.tenantId) {t key : String} (ht : t ≠ tenantId) :
    Current decrypt (s.rows.update p f hf) t key ↔ Current decrypt s.rows t key := by
  rw [current_update_iff]
  constructor
  · rintro (h | ⟨r, -, hr, hrt, -⟩)
    · exact h.current
    · rw [htenant, hp r hr] at hrt
      exact absurd hrt.symm ht
  · intro h
    refine .inl (h.outside ?_)
    intro r _ hrt _
    by_contra hr
    exact ht (hrt.symm.trans (hp r (by simpa using hr)))

theorem noStale_revoke_iff (h : NoStaleEntry decrypt s) (tenantId id : String) (now : Int) :
    NoStaleEntry decrypt (revokeCredential s tenantId id now).1 ↔
      ∀ key, ProvidersHold s tenantId key →
        BackedOutside decrypt (revocable tenantId id) s.rows tenantId key := by
  have hinactive (r : StoredCredential B) : (r.setStatus .revoked now).status ≠ .active :=
    StoredCredential.setStatus_inactive (by decide) now r
  have hown (r : StoredCredential B) (hr : revocable tenantId id r = true) :
      r.tenantId = tenantId := by
    simp only [revocable, decide_eq_true_eq] at hr
    exact hr.2.1
  rw [revokeCredential]
  by_cases hany : s.rows.rows.any (revocable tenantId id)
  · simp only [hany, if_true]
    refine (noStale_flushed_iff h tenantId ?_).trans ?_
    · intro t key ht
      exact current_update_other (StoredCredential.setStatus_id .revoked now) hown
        (fun _ => rfl) ht
    · simp only [revoke, current_update_inactive _ hinactive]
  · -- nothing to revoke: the write reaches no row
    simp only [hany, Bool.false_eq_true, if_false, h, true_iff]
    intro key hholds
    have hcurrent := (noStale_flushed_iff h tenantId fun _ _ _ => Iff.rfl).mp
      ⟨h.resolved.discard _, h.chains, h.embedders⟩ key hholds
    refine hcurrent.outside ?_
    intro r hr _ _
    by_contra hp
    exact hany (List.any_eq_true.mpr ⟨r, hr, by simpa using hp⟩)

theorem noStale_forceClear_iff (h : NoStaleEntry decrypt s) (tenantId : String)
    (providers : List String) (now : Int) :
    NoStaleEntry decrypt (forceClearCredentials s tenantId providers now).1 ↔
      (tenantId ∈ s.tenants →
        ∀ key, ProvidersHold s tenantId key ∨ ResolverHolds s tenantId key →
          BackedOutside decrypt (clearable tenantId providers) s.rows tenantId key) := by
  have hinactive (r : StoredCredential B) : (r.setStatus .revoked now).status ≠ .active :=
    StoredCredential.setStatus_inactive (by decide) now r
  have hown (r : StoredCredential B) (hr : clearable tenantId providers r = true) :
      r.tenantId = tenantId := by
    simp only [clearable, decide_eq_true_eq] at hr
    exact hr.1
  rw [forceClearCredentials]
  by_cases hmem : tenantId ∈ s.tenants
  · simp only [hmem, if_true, true_imp_iff]
    refine (noStale_unflushed_iff h tenantId ?_).trans ?_
    · intro t key ht
      exact current_update_other (StoredCredential.setStatus_id .revoked now) hown
        (fun _ => rfl) ht
    · simp only [current_update_inactive _ hinactive]
  · simp [hmem, h]

theorem current_upsert {u : Upsert B} {id : String} (hup : upsert s.rows u = some (rows, id))
    {key : String} :
    Current decrypt rows u.tenantId key ↔
      BackedOutside decrypt u.onSlot s.rows u.tenantId key ∨
      (decrypt u.tenantId u.provider u.purpose u.blob).map stripText = some key := by
  rw [upsert] at hup
  cases hfind : s.rows.rows.find? u.onSlot with
  | some r =>
      simp only [hfind] at hup
      cases hup
      rw [current_update_iff]
      have hslot (r : StoredCredential B) (hr : u.onSlot r = true) :
          (u.replace r).apiKey decrypt =
            (decrypt u.tenantId u.provider u.purpose u.blob).map stripText := by
        obtain ⟨htenant, hprovider, hpurpose⟩ := Upsert.onSlot_iff.mp hr
        simp [StoredCredential.apiKey, StoredCredential.plaintext, Upsert.replace, htenant,
          hprovider, hpurpose]
      have hr := List.find?_some hfind
      refine or_congr Iff.rfl ⟨?_, fun hkey => ?_⟩
      · rintro ⟨r', -, hr', -, -, hkey⟩
        rwa [hslot r' hr'] at hkey
      · have htenant := (Upsert.onSlot_iff.mp hr).1
        exact ⟨r, List.mem_of_find?_eq_some hfind, hr, htenant, rfl, (hslot r hr).trans hkey⟩
  | none =>
      simp only [hfind, Option.map_eq_some_iff, Prod.mk.injEq] at hup
      obtain ⟨_, hins, rfl, rfl⟩ := hup
      have hmem (r : StoredCredential B) := Table.mem_insert (x := r) hins
      constructor
      · rintro ⟨r, hr, htenant, hactive, hkey⟩
        rcases (hmem r).mp hr with hr | rfl
        · exact .inl ⟨r, hr, by simpa using List.find?_eq_none.mp hfind r hr, htenant, hactive,
            hkey⟩
        · exact .inr hkey
      · rintro (hback | hkey)
        · obtain ⟨r, hr, hrest⟩ := hback.current
          exact ⟨r, (hmem r).mpr (.inl hr), hrest⟩
        · exact ⟨u.row, (hmem _).mpr (.inr rfl), rfl, rfl, hkey⟩

theorem current_upsert_other {u : Upsert B} {id : String}
    (hup : upsert s.rows u = some (rows, id)) {t key : String} (ht : t ≠ u.tenantId) :
    Current decrypt rows t key ↔ Current decrypt s.rows t key := by
  rw [upsert] at hup
  cases hfind : s.rows.rows.find? u.onSlot with
  | some r =>
      simp only [hfind] at hup
      cases hup
      exact current_update_other u.replace_id (fun r hr => (Upsert.onSlot_iff.mp hr).1)
        (fun _ => rfl) ht
  | none =>
      simp only [hfind, Option.map_eq_some_iff, Prod.mk.injEq] at hup
      obtain ⟨_, hins, rfl, rfl⟩ := hup
      constructor
      · rintro ⟨r, hr, htenant, hrest⟩
        rcases (Table.mem_insert hins).mp hr with hr | rfl
        · exact ⟨r, hr, htenant, hrest⟩
        · exact absurd htenant.symm ht
      · rintro ⟨r, hr, hrest⟩
        exact ⟨r, (Table.mem_insert hins).mpr (.inl hr), hrest⟩

theorem noStale_create_iff (h : NoStaleEntry decrypt s) (req : CreateRequest B) :
    NoStaleEntry decrypt (createCredential s req).1 ↔
      KeepsKeysBacked decrypt s (.create req) := by
  rw [createCredential, KeepsKeysBacked]
  by_cases haccepted : req.accepted = true
  · simp only [haccepted, not_true_eq_false, if_false, true_imp_iff]
    cases hup : upsert s.rows req.upsert with
    | none => simp [h]
    | some result =>
        have hvalidated (t key : String) :
            Current decrypt (markValidated result.1 result.2 req.validatedAt) t key ↔
              Current decrypt result.1 t key :=
          current_update_same (StoredCredential.touch_id req.validatedAt)
            fun _ => ⟨rfl, rfl, rfl⟩
        simp only [Option.isSome_some, true_imp_iff]
        refine (noStale_flushed_iff h req.upsert.tenantId ?_).trans ?_
        · intro t key ht
          exact (hvalidated t key).trans (current_upsert_other hup ht)
        · simp only [hvalidated, current_upsert hup]
  · simp [haccepted, h]

theorem noStale_patch (h : NoStaleEntry decrypt s) {tenantId id : String} {f : PatchFields}
    {ifMatch : Option Int} {now : Int} {outcome : PatchOutcome}
    (hpatch : patch s.rows tenantId id f ifMatch now = (rows, outcome)) (t : String) :
    NoStaleEntry decrypt
      (invalidateProviderCache (invalidateResolver { s with rows := rows } t) t) := by
  have hkeys (t key : String) : Current decrypt rows t key ↔ Current decrypt s.rows t key := by
    simp only [patch] at hpatch
    split at hpatch
    · cases hpatch
      exact Iff.rfl
    split at hpatch
    · cases hpatch
      exact current_update_same (f.set_id now) fun _ => ⟨rfl, rfl, rfl⟩
    · have hrows : s.rows = rows := by
        split at hpatch
        · exact congrArg Prod.fst hpatch
        · split at hpatch <;> exact congrArg Prod.fst hpatch
      rw [hrows]
  have hclean := (Clean.of_rows h hkeys).noStale
  exact ⟨hclean.resolved.discard _, hclean.chains.discard _, hclean.embedders⟩

theorem noStale_updateCredential (h : NoStaleEntry decrypt s) (req : PatchRequest) :
    NoStaleEntry decrypt (updateCredential s req).1 := by
  simp only [updateCredential]
  split
  · rename_i hpatch
    exact noStale_patch h hpatch req.tenantId
  · exact h

theorem noStale_updateSubResource (h : NoStaleEntry decrypt s) (req : PatchRequest)
    (existing : StoredCredential B) (emptyBody : Bool) (fields : PatchFields) :
    NoStaleEntry decrypt (updateSubResource s req existing emptyBody fields).1 := by
  rw [updateSubResource]
  split
  · exact h
  split
  · exact h
  split
  · exact h
  split
  · rename_i hpatch
    exact noStale_patch h hpatch req.tenantId
  · exact h
  · exact h

theorem noStale_updateRoleModels (h : NoStaleEntry decrypt s) (req : PatchRequest) :
    NoStaleEntry decrypt (updateRoleModels s req).1 := by
  rw [updateRoleModels]
  split
  · exact h
  · exact noStale_updateSubResource h req _ _ _

theorem noStale_updateRoleCostLimits (h : NoStaleEntry decrypt s) (req : PatchRequest) :
    NoStaleEntry decrypt (updateRoleCostLimits s req).1 := by
  rw [updateRoleCostLimits]
  split
  · exact h
  · exact noStale_updateSubResource h req _ _ _

theorem noStale_updateFailoverChain (h : NoStaleEntry decrypt s) (req : PatchRequest) :
    NoStaleEntry decrypt (updateFailoverChain s req).1 := by
  rw [updateFailoverChain]
  split
  · exact h
  simp only
  split
  · exact h
  split
  · exact h
  · exact noStale_updateSubResource h req _ _ _

/-- One action leaves the caches clean exactly when it keeps their keys
backed. -/
theorem noStale_step_iff (h : NoStaleEntry decrypt s) (a : CredentialAction B) :
    NoStaleEntry decrypt (step decrypt s a) ↔ KeepsKeysBacked decrypt s a := by
  cases a with
  | llmCall env tenantId role =>
      exact iff_of_true (llmCall_clean h env tenantId role).1.noStale trivial
  | embedCall env tenantId =>
      exact iff_of_true (embedCall_clean h env tenantId).1.noStale trivial
  | create req => exact noStale_create_iff h req
  | updateCredential req => exact iff_of_true (noStale_updateCredential h req) trivial
  | updateRoleModels req => exact iff_of_true (noStale_updateRoleModels h req) trivial
  | updateRoleCostLimits req => exact iff_of_true (noStale_updateRoleCostLimits h req) trivial
  | updateFailoverChain req => exact iff_of_true (noStale_updateFailoverChain h req) trivial
  | revoke tenantId id now => exact noStale_revoke_iff h tenantId id now
  | forceClear tenantId providers now =>
      exact noStale_forceClear_iff h tenantId providers now

/-- The process as it starts: any rows, nothing cached. -/
def fresh (tenants : List String) (rows : CredentialTable B) : Byok B :=
  ⟨tenants, rows, .empty, .empty, .empty⟩

theorem noStale_fresh (tenants : List String) (rows : CredentialTable B) :
    NoStaleEntry decrypt (fresh tenants rows) :=
  ⟨OrderedDict.all_empty, OrderedDict.all_empty, OrderedDict.all_empty⟩

end Writes

/-- Keeping the keys backed is what keeps the caches clean throughout a run,
and then every call of the run uses current keys only. -/
theorem keysCurrent_run {B : Type}
    (decrypt : String → Provider → Purpose → B → Option String) (tenants : List String)
    (rows : CredentialTable B) (run : List (CredentialAction B)) :
    (Always (step decrypt) (NoStaleEntry decrypt) (fresh tenants rows) run ↔
      AllSteps (step decrypt) (KeepsKeysBacked decrypt) (fresh tenants rows) run) ∧
    (AllSteps (step decrypt) (KeepsKeysBacked decrypt) (fresh tenants rows) run →
      AllSteps (step decrypt) (CallsCurrent decrypt) (fresh tenants rows) run) := by
  have hiff := always_iff_allSteps (P := NoStaleEntry decrypt)
    (fun _ a h => noStale_step_iff h a) (noStale_fresh tenants rows) run
  refine ⟨hiff, fun hbacked => ?_⟩
  refine AllSteps.mono ?_ (hbacked.and_always (hiff.mpr hbacked))
  exact fun s a h => h.1.callsCurrent a

section Sample

/-- A backend that stores secrets as they are. -/
def plainDecrypt (_ : String) (_ : Provider) (_ : Purpose) (blob : String) : Option String :=
  some blob

def acmeEnv : CallEnv :=
  ⟨0, false, fun _ => false, fun _ => true, none, []⟩

def acmeCreate (purpose : Purpose) (key id : String) : CredentialAction String :=
  .create ⟨⟨"acme", .openai, purpose, key, none, none, none, id, 0⟩, true, 0⟩

/-- The old key is used after it was rotated, for embeddings as for LLM calls,
and after an admin has cleared it. -/
theorem rotated_key_still_used :
    ¬ AllSteps (step plainDecrypt) (CallsCurrent plainDecrypt)
      (fresh ["acme"] ⟨[], List.nodup_nil⟩)
      [acmeCreate .llm "sk-old-key" "cred-1", .llmCall acmeEnv "acme" "eval",
        acmeCreate .llm "sk-new-key" "cred-2", .llmCall acmeEnv "acme" "eval"] ∧
    ¬ AllSteps (step plainDecrypt) (CallsCurrent plainDecrypt)
      (fresh ["acme"] ⟨[], List.nodup_nil⟩)
      [acmeCreate .both "sk-old-key" "cred-1", .embedCall acmeEnv "acme",
        acmeCreate .both "sk-new-key" "cred-2", .embedCall acmeEnv "acme"] ∧
    ¬ AllSteps (step plainDecrypt) (CallsCurrent plainDecrypt)
      (fresh ["acme"] ⟨[], List.nodup_nil⟩)
      [acmeCreate .llm "sk-old-key" "cred-1", .llmCall acmeEnv "acme" "eval",
        .forceClear "acme" [] 0, .llmCall acmeEnv "acme" "eval"] := by
  refine ⟨?_, ?_, ?_⟩ <;> decide +kernel

end Sample

end Engramia.Credentials
