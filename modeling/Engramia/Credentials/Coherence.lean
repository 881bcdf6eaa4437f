import Engramia.Credentials.Routes
import Engramia.Library.Run

/-!
Which keys the caches may hold. A key is current for a tenant when an active
row of the tenant decrypts to it. Calls only ever cache current keys, so what
can go wrong is a write: after it, a cache it does not flush may hold a key
that no active row stands behind any more.
-/
namespace Engramia.Credentials

open Engramia.Library

section
variable {B : Type} (decrypt : String → Provider → Purpose → B → Option String)

/-- Some active row of the tenant, outside those `p` selects, has the key. -/
def BackedOutside (p : StoredCredential B → Bool) (rows : CredentialTable B)
    (tenantId key : String) : Prop :=
  ∃ r ∈ rows.rows, p r = false ∧ r.tenantId = tenantId ∧ r.status = .active ∧
    r.apiKey decrypt = some key

def Current (rows : CredentialTable B) (tenantId key : String) : Prop :=
  ∃ r ∈ rows.rows, r.tenantId = tenantId ∧ r.status = .active ∧
    r.apiKey decrypt = some key

instance (rows : CredentialTable B) (tenantId key : String) :
    Decidable (Current decrypt rows tenantId key) :=
  inferInstanceAs (Decidable (∃ r ∈ rows.rows, _))

/-- No cache holds a key that is not current for the tenant it is filed
under. -/
structure NoStaleEntry (s : Byok B) : Prop where
  resolved : s.resolved.All fun k v =>
    v.2.tenantId = k.1 ∧ Current decrypt s.rows k.1 v.2.apiKey
  chains : s.chains.All fun k chain => ∀ e ∈ chain, Current decrypt s.rows k.1 e.client.apiKey
  embedders : s.embedders.All fun k client => Current decrypt s.rows k.1 client.apiKey

/-- The action's calls use keys that are current as it starts. -/
def CallsCurrent (s : Byok B) (a : CredentialAction B) : Prop :=
  ∀ c ∈ clientsCalled decrypt s a, Current decrypt s.rows c.1 c.2.apiKey

instance (s : Byok B) (a : CredentialAction B) : Decidable (CallsCurrent decrypt s a) :=
  inferInstanceAs (Decidable (∀ c ∈ clientsCalled decrypt s a, _))

variable {decrypt}

theorem current_update_iff {rows : CredentialTable B} {p : StoredCredential B → Bool}
    {f : StoredCredential B → StoredCredential B} (hf : ∀ r, (f r).id = r.id)
    {tenantId key : String} :
    Current decrypt (rows.update p f hf) tenantId key ↔
      BackedOutside decrypt p rows tenantId key ∨
      ∃ r ∈ rows.rows, p r = true ∧ (f r).tenantId = tenantId ∧ (f r).status = .active ∧
        (f r).apiKey decrypt = some key := by
  constructor
  · rintro ⟨r', hr', htenant, hactive, hkey⟩
    rcases mem_updateWhere_cases hr' with ⟨r, hr, hp, rfl⟩ | ⟨hr, hp⟩
    · exact .inr ⟨r, hr, hp, htenant, hactive, hkey⟩
    · exact .inl ⟨r', hr, hp, htenant, hactive, hkey⟩
  · rintro (⟨r, hr, hp, htenant, hactive, hkey⟩ | ⟨r, hr, hp, htenant, hactive, hkey⟩)
    · exact ⟨r, mem_updateWhere.mpr ⟨r, hr, by simp [hp]⟩, htenant, hactive, hkey⟩
    · exact ⟨f r, mem_updateWhere_of_match hr hp, htenant, hactive, hkey⟩

theorem BackedOutside.current {p : StoredCredential B → Bool} {rows : CredentialTable B}
    {tenantId key : String} (h : BackedOutside decrypt p rows tenantId key) :
    Current decrypt rows tenantId key := by
  obtain ⟨r, hr, -, hrest⟩ := h
  exact ⟨r, hr, hrest⟩

theorem Current.outside {p : StoredCredential B → Bool} {rows : CredentialTable B}
    {tenantId key : String} (h : Current decrypt rows tenantId key)
    (hp : ∀ r ∈ rows.rows, r.tenantId = tenantId → r.apiKey decrypt = some key →
      p r = false) : BackedOutside decrypt p rows tenantId key := by
  obtain ⟨r, hr, htenant, hactive, hkey⟩ := h
  exact ⟨r, hr, hp r hr htenant hkey, htenant, hactive, hkey⟩

/-- A write that takes rows out of use leaves what the others back. -/
theorem current_update_inactive {rows : CredentialTable B} {p : StoredCredential B → Bool}
    {f : StoredCredential B → StoredCredential B} (hf : ∀ r, (f r).id = r.id)
    (hstatus : ∀ r, (f r).status ≠ .active) {tenantId key : String} :
    Current decrypt (rows.update p f hf) tenantId key ↔
      BackedOutside decrypt p rows tenantId key := by
  rw [current_update_iff]
  constructor
  · rintro (h | ⟨r, -, -, -, hactive, -⟩)
    · exact h
    · exact absurd hactive (hstatus r)
  · exact .inl

/-- A write to the other columns changes no tenant's keys. -/
theorem current_update_same {rows : CredentialTable B} {p : StoredCredential B → Bool}
    {f : StoredCredential B → StoredCredential B} (hf : ∀ r, (f r).id = r.id)
    (hsame : ∀ r, (f r).tenantId = r.tenantId ∧ (f r).status = r.status ∧
      (f r).apiKey decrypt = r.apiKey decrypt) {tenantId key : String} :
    Current decrypt (rows.update p f hf) tenantId key ↔
      Current decrypt rows tenantId key := by
  rw [current_update_iff]
  constructor
  · rintro (h | ⟨r, hr, -, hrest⟩)
    · exact h.current
    · rw [(hsame r).1, (hsame r).2.1, (hsame r).2.2] at hrest
      exact ⟨r, hr, hrest⟩
  · rintro ⟨r, hr, hrest⟩
    by_cases hp : p r = true
    · refine .inr ⟨r, hr, hp, ?_⟩
      rw [(hsame r).1, (hsame r).2.1, (hsame r).2.2]
      exact hrest
    · exact .inl ⟨r, hr, by simpa using hp, hrest⟩

/-- A row that does not decrypt backs no key, whatever becomes of it. -/
theorem current_markInvalid {rows : CredentialTable B} {r : StoredCredential B}
    (hr : r ∈ rows.rows) (hnone : r.plaintext decrypt = none) {now : Int}
    {tenantId key : String} :
    Current decrypt (markInvalid rows r.id now) tenantId key ↔
      Current decrypt rows tenantId key := by
  rw [markInvalid, current_update_inactive (StoredCredential.setStatus_id .invalid now)
    (StoredCredential.setStatus_inactive (by decide) now)]
  refine ⟨BackedOutside.current, fun h => h.outside ?_⟩
  intro r' hr' _ hkey
  rw [decide_eq_false_iff_not]
  intro hid
  have hsame := List.inj_on_of_nodup_map rows.unique hr' hr hid
  rw [hsame, StoredCredential.apiKey, hnone] at hkey
  cases hkey

end

/-- Between `s` and `s'` a call has changed no tenant's keys and has left the
caches clean. -/
structure Clean {B : Type} (decrypt : String → Provider → Purpose → B → Option String)
    (s s' : Byok B) : Prop where
  keys : ∀ tenantId key, Current decrypt s'.rows tenantId key ↔
    Current decrypt s.rows tenantId key
  noStale : NoStaleEntry decrypt s'

namespace Clean
variable {B : Type} {decrypt : String → Provider → Purpose → B → Option String}
  {s s₁ s₂ : Byok B}

theorem refl (h : NoStaleEntry decrypt s) : Clean decrypt s s :=
  ⟨fun _ _ => Iff.rfl, h⟩

theorem trans (h₁ : Clean decrypt s s₁) (h₂ : Clean decrypt s₁ s₂) : Clean decrypt s s₂ :=
  ⟨fun t k => (h₂.keys t k).trans (h₁.keys t k), h₂.noStale⟩

/-- Changing the rows without changing anybody's keys. -/
theorem of_rows (h : NoStaleEntry decrypt s) {rows : CredentialTable B}
    (hkeys : ∀ t k, Current decrypt rows t k ↔ Current decrypt s.rows t k) :
    Clean decrypt s { s with rows := rows } where
  keys := hkeys
  noStale :=
    { resolved := h.resolved.mono fun k _ hv => ⟨hv.1, (hkeys k.1 _).mpr hv.2⟩
      chains := h.chains.mono fun k _ hv e he => (hkeys k.1 _).mpr (hv e he)
      embedders := h.embedders.mono fun k _ hv => (hkeys k.1 _).mpr hv }

end Clean

section Calls
variable {B : Type} {decrypt : String → Provider → Purpose → B → Option String}
  {s : Byok B}

/-- What a resolved credential is good for in state `s`. -/
def Resolves (decrypt : String → Provider → Purpose → B → Option String) (s : Byok B)
    (tenantId : String) (cred : TenantCredential) : Prop :=
  cred.tenantId = tenantId ∧ Current decrypt s.rows tenantId cred.apiKey

theorem decryptRow_clean (h : NoStaleEntry decrypt s) (env : CallEnv) {r : StoredCredential B}
    (hr : r ∈ s.rows.rows) (hactive : r.status = .active) :
    Clean decrypt s (decryptRow decrypt env s r).1 ∧
    ∀ cred, (decryptRow decrypt env s r).2 = some cred → Resolves decrypt s r.tenantId cred := by
  rw [decryptRow]
  split
  · exact ⟨Clean.refl h, by simp⟩
  · cases hkey : r.plaintext decrypt with
    | none => exact ⟨Clean.of_rows h fun _ _ => current_markInvalid hr hkey, by simp⟩
    | some key =>
        refine ⟨Clean.refl h, ?_⟩
        rintro cred ⟨⟩
        exact ⟨rfl, r, hr, rfl, hactive, by rw [StoredCredential.apiKey, hkey]; rfl⟩

theorem cacheGet_all {d : OrderedDict (String × Purpose) (Int × TenantCredential)}
    {P : String × Purpose → Int × TenantCredential → Prop} (h : d.All P)
    (k : String × Purpose) (now : Int) :
    (cacheGet d k now).1.All P ∧
    ∀ cred, (cacheGet d k now).2 = some cred → ∃ expiresAt, P k (expiresAt, cred) := by
  rw [cacheGet]
  cases hget : d.get? k with
  | none => exact ⟨h, by simp⟩
  | some v =>
      simp only
      split
      · exact ⟨h.discard _, by simp⟩
      · refine ⟨h.moveToEnd k, ?_⟩
        rintro cred ⟨⟩
        exact ⟨v.1, h.get? hget⟩

theorem resolve_clean (h : NoStaleEntry decrypt s) (env : CallEnv) (tenantId : String)
    (purpose : Purpose) :
    Clean decrypt s (resolve decrypt env s tenantId purpose).1 ∧
    ∀ cred, (resolve decrypt env s tenantId purpose).2 = some cred →
      Resolves decrypt s tenantId cred := by
  obtain ⟨hall, hhit⟩ := cacheGet_all h.resolved (tenantId, purpose) env.now
  rw [resolve]
  cases hget : cacheGet s.resolved (tenantId, purpose) env.now with
  | mk resolved found =>
      rw [hget] at hall hhit
      have hs : NoStaleEntry decrypt { s with resolved := resolved } :=
        ⟨hall, h.chains, h.embedders⟩
      cases found with
      | some cred =>
          refine ⟨⟨fun _ _ => Iff.rfl, hs⟩, ?_⟩
          rintro _ ⟨⟩
          obtain ⟨_, htenant, hcurrent⟩ := hhit cred rfl
          exact ⟨htenant, hcurrent⟩
      | none =>
          simp only
          cases hrow : (if env.storeDown then none
              else getActiveForPurpose s.rows tenantId purpose) with
          | none => exact ⟨⟨fun _ _ => Iff.rfl, hs⟩, by simp⟩
          | some r =>
              have hactive : getActiveForPurpose s.rows tenantId purpose = some r := by
                split at hrow
                · cases hrow
                · exact hrow
              obtain ⟨hr, rfl, hstatus⟩ := getActiveForPurpose_some hactive
              obtain ⟨hclean, hcred⟩ := decryptRow_clean hs env hr hstatus
              simp only
              cases hdec : decryptRow decrypt env { s with resolved := resolved } r with
              | mk s₁ found =>
                  rw [hdec] at hclean hcred
                  cases found with
                  | none => exact ⟨⟨hclean.keys, hclean.noStale⟩, by simp⟩
                  | some cred =>
                      obtain ⟨htenant, hcurrent⟩ := hcred cred rfl
                      refine ⟨⟨hclean.keys, ?_⟩, ?_⟩
                      · refine ⟨hclean.noStale.resolved.put _ ?_, hclean.noStale.chains,
                          hclean.noStale.embedders⟩
                        exact ⟨htenant, (hclean.keys _ _).mpr hcurrent⟩
                      · rintro _ ⟨⟩
                        exact ⟨htenant, hcurrent⟩

theorem resolveById_clean (h : NoStaleEntry decrypt s) (env : CallEnv) (tenantId id : String) :
    Clean decrypt s (resolveById decrypt env s tenantId id).1 ∧
    ∀ cred, (resolveById decrypt env s tenantId id).2 = some cred →
      Resolves decrypt s tenantId cred := by
  rw [resolveById]
  cases hrow : (if env.storeDown then none else getById s.rows tenantId id) with
  | none => exact ⟨Clean.refl h, by simp⟩
  | some r =>
      have hget : getById s.rows tenantId id = some r := by
        split at hrow
        · cases hrow
        · exact hrow
      obtain ⟨hr, -, rfl⟩ := getById_eq_some.mp hget
      by_cases hactive : r.status = .active
      · simp only [hactive, if_true]
        exact decryptRow_clean h env hr hactive
      · simp only [hactive, if_false]
        exact ⟨Clean.refl h, by simp⟩

theorem buildOneLlm_apiKey {installed : Provider → Bool} {cred : TenantCredential}
    {role : String} {client : Client} (h : buildOneLlm installed cred role = some client) :
    client.apiKey = cred.apiKey := by
  rw [buildOneLlm] at h
  split at h <;> cases h
  rfl

theorem buildEmbeddings_apiKey {installed : Provider → Bool} {cred : TenantCredential}
    {client : Client} (h : buildEmbeddings installed cred = some client) :
    client.apiKey = cred.apiKey := by
  rw [buildEmbeddings.eq_def] at h
  cases hp : cred.provider with
  | anthropic => simp [hp] at h
  | openai | openaiCompat | gemini | ollama =>
      simp only [hp] at h
      split at h
      · cases h
        rfl
      · cases h

theorem buildFallbacks_clean (h : NoStaleEntry decrypt s) (env : CallEnv) (tenantId role : String)
    (ids seen : List String) :
    Clean decrypt s (buildFallbacks decrypt env tenantId role ids seen s).1 ∧
    ∀ e ∈ (buildFallbacks decrypt env tenantId role ids seen s).2,
      Current decrypt s.rows tenantId e.client.apiKey := by
  induction ids generalizing seen s with
  | nil => exact ⟨Clean.refl h, by simp [buildFallbacks]⟩
  | cons id rest ih =>
      rw [buildFallbacks]
      split
      · exact ih h seen
      · obtain ⟨hclean, hcred⟩ := resolveById_clean h env tenantId id
        obtain ⟨hrest, hentries⟩ := ih hclean.noStale (id :: seen)
        have htail (e : ChainEntry) (he : e ∈ (buildFallbacks decrypt env tenantId role rest
            (id :: seen) (resolveById decrypt env s tenantId id).1).2) :
            Current decrypt s.rows tenantId e.client.apiKey :=
          (hclean.keys _ _).mp (hentries e he)
        simp only
        cases hfound : (resolveById decrypt env s tenantId id).2 with
        | none => exact ⟨hclean.trans hrest, htail⟩
        | some cred =>
            cases hbuild : buildOneLlm env.installed cred role with
            | none =>
                simp only [hbuild]
                exact ⟨hclean.trans hrest, htail⟩
            | some client =>
                simp only [hbuild]
                refine ⟨hclean.trans hrest, ?_⟩
                intro e he
                rcases List.mem_cons.mp he with rfl | he
                · rw [buildOneLlm_apiKey hbuild]
                  exact (hcred cred hfound).2
                · exact htail e he

theorem buildLlmChain_clean (h : NoStaleEntry decrypt s) (env : CallEnv) {cred : TenantCredential}
    (hcurrent : Current decrypt s.rows cred.tenantId cred.apiKey) (role : String) :
    Clean decrypt s (buildLlmChain decrypt env s cred role).1 ∧
    ∀ chain, (buildLlmChain decrypt env s cred role).2 = some chain →
      ∀ e ∈ chain, Current decrypt s.rows cred.tenantId e.client.apiKey := by
  rw [buildLlmChain]
  cases hbuild : buildOneLlm env.installed cred role with
  | none => exact ⟨Clean.refl h, by simp⟩
  | some client =>
      obtain ⟨hclean, hentries⟩ := buildFallbacks_clean h env cred.tenantId role
        (cred.failoverChain.take (failoverChainMaxLen - 1)) [cred.id]
      refine ⟨hclean, ?_⟩
      rintro _ ⟨⟩ e he
      rcases List.mem_cons.mp he with rfl | he
      · rw [buildOneLlm_apiKey hbuild]
        exact hcurrent
      · exact hentries e he

theorem getOrBuildChain_clean (h : NoStaleEntry decrypt s) (env : CallEnv) {tenantId : String}
    {cred : TenantCredential} (hcred : Resolves decrypt s tenantId cred) (role : String) :
    Clean decrypt s (getOrBuildChain decrypt env s cred role).1 ∧
    ∀ chain, (getOrBuildChain decrypt env s cred role).2 = some chain →
      ∀ e ∈ chain, Current decrypt s.rows tenantId e.client.apiKey := by
  obtain ⟨rfl, hcurrent⟩ := hcred
  rw [getOrBuildChain]
  cases hget : s.chains.get? (cred.tenantId, cred.provider, role) with
  | some chain =>
      refine ⟨⟨fun _ _ => Iff.rfl, ⟨h.resolved, h.chains.moveToEnd _, h.embedders⟩⟩, ?_⟩
      rintro _ ⟨⟩
      exact h.chains.get? hget
  | none =>
      obtain ⟨hclean, hchain⟩ := buildLlmChain_clean h env hcurrent role
      simp only
      cases hbuild : buildLlmChain decrypt env s cred role with
      | mk s₁ built =>
          rw [hbuild] at hclean hchain
          cases built with
          | none => exact ⟨hclean, by simp⟩
          | some chain =>
              have hs := hclean.noStale
              simp only
              refine ⟨⟨hclean.keys, hs.resolved, ?_, hs.embedders⟩, ?_⟩
              · exact hs.chains.put _ fun e he => (hclean.keys _ _).mpr (hchain chain rfl e he)
              · rintro _ ⟨⟩
                exact hchain chain rfl

theorem mem_called {c : Client} {chain : List ChainEntry} {outcomes : List CallOutcome}
    (h : c ∈ called chain outcomes) : ∃ e ∈ chain, e.client = c := by
  induction chain generalizing outcomes with
  | nil => simp [called] at h
  | cons e rest ih =>
      cases outcomes with
      | nil =>
          simp only [called, List.mem_singleton] at h
          exact ⟨e, List.mem_cons_self, h.symm⟩
      | cons outcome outcomes =>
          cases outcome with
          | transientError =>
              simp only [called] at h
              rcases List.mem_cons.mp h with rfl | h
              · exact ⟨e, List.mem_cons_self, rfl⟩
              · obtain ⟨e', he', rfl⟩ := ih h
                exact ⟨e', List.mem_cons_of_mem _ he', rfl⟩
          | success | authError =>
              simp only [called, List.mem_singleton] at h
              exact ⟨e, List.mem_cons_self, h.symm⟩

theorem llmCall_clean (h : NoStaleEntry decrypt s) (env : CallEnv) (tenantId role : String) :
    Clean decrypt s (llmCall decrypt env s tenantId role).1 ∧
    ∀ c ∈ (llmCall decrypt env s tenantId role).2,
      Current decrypt s.rows tenantId c.apiKey := by
  obtain ⟨hclean, hcred⟩ := resolve_clean h env tenantId .llm
  rw [llmCall]
  cases hres : resolve decrypt env s tenantId .llm with
  | mk s₁ found =>
      rw [hres] at hclean hcred
      cases found with
      | none => exact ⟨hclean, by simp⟩
      | some cred =>
          obtain ⟨htenant, hcurrent⟩ := hcred cred rfl
          obtain ⟨hnext, hchain⟩ := getOrBuildChain_clean hclean.noStale env
            ⟨htenant, (hclean.keys _ _).mpr hcurrent⟩ (applyCostCeiling env cred role)
          simp only
          cases hget : getOrBuildChain decrypt env s₁ cred (applyCostCeiling env cred role) with
          | mk s₂ chain =>
              rw [hget] at hnext hchain
              cases chain with
              | none => exact ⟨hclean.trans hnext, by simp⟩
              | some chain =>
                  refine ⟨hclean.trans hnext, ?_⟩
                  intro c hc
                  obtain ⟨e, he, rfl⟩ := mem_called hc
                  exact (hclean.keys _ _).mp (hchain chain rfl e he)

theorem embeddingCredential_clean (h : NoStaleEntry decrypt s) (env : CallEnv)
    (tenantId : String) :
    Clean decrypt s (embeddingCredential decrypt env s tenantId).1 ∧
    ∀ cred, (embeddingCredential decrypt env s tenantId).2 = some cred →
      Resolves decrypt s tenantId cred := by
  obtain ⟨hclean, hcred⟩ := resolve_clean h env tenantId .embedding
  rw [embeddingCredential]
  cases hres : resolve decrypt env s tenantId .embedding with
  | mk s₁ found =>
      rw [hres] at hclean hcred
      cases found with
      | some cred => exact ⟨hclean, hcred⟩
      | none =>
          obtain ⟨hnext, hllm⟩ := resolve_clean hclean.noStale env tenantId .llm
          simp only
          cases hres₂ : resolve decrypt env s₁ tenantId .llm with
          | mk s₂ found =>
              rw [hres₂] at hnext hllm
              cases found with
              | none => exact ⟨hclean.trans hnext, by simp⟩
              | some cred =>
                  refine ⟨hclean.trans hnext, ?_⟩
                  intro c hc
                  obtain ⟨htenant, hcurrent⟩ := hllm cred rfl
                  have hsame : cred = c := by
                    simp only at hc
                    split at hc <;> cases hc
                    rfl
                  rw [← hsame]
                  exact ⟨htenant, (hclean.keys _ _).mp hcurrent⟩

theorem getOrBuildEmbeddings_clean (h : NoStaleEntry decrypt s) (env : CallEnv) {tenantId : String}
    {cred : TenantCredential} (hcred : Resolves decrypt s tenantId cred) :
    Clean decrypt s (getOrBuildEmbeddings env s cred).1 ∧
    ∀ c, (getOrBuildEmbeddings env s cred).2 = some c →
      Current decrypt s.rows tenantId c.apiKey := by
  obtain ⟨rfl, hcurrent⟩ := hcred
  rw [getOrBuildEmbeddings]
  cases hget : s.embedders.get? (cred.tenantId, cred.provider) with
  | some client =>
      refine ⟨⟨fun _ _ => Iff.rfl, ⟨h.resolved, h.chains, h.embedders.moveToEnd _⟩⟩, ?_⟩
      rintro _ ⟨⟩
      exact h.embedders.get? hget
  | none =>
      simp only
      cases hbuild : buildEmbeddings env.installed cred with
      | none => exact ⟨Clean.refl h, by simp⟩
      | some client =>
          have hnew : Current decrypt s.rows cred.tenantId client.apiKey := by
            rw [buildEmbeddings_apiKey hbuild]
            exact hcurrent
          simp only
          refine ⟨⟨fun _ _ => Iff.rfl, ⟨h.resolved, h.chains, h.embedders.put _ hnew⟩⟩, ?_⟩
          rintro _ ⟨⟩
          exact hnew

theorem embedCall_clean (h : NoStaleEntry decrypt s) (env : CallEnv) (tenantId : String) :
    Clean decrypt s (embedCall decrypt env s tenantId).1 ∧
    ∀ c ∈ (embedCall decrypt env s tenantId).2, Current decrypt s.rows tenantId c.apiKey := by
  obtain ⟨hclean, hcred⟩ := embeddingCredential_clean h env tenantId
  rw [embedCall]
  cases hres : embeddingCredential decrypt env s tenantId with
  | mk s₁ found =>
      rw [hres] at hclean hcred
      cases found with
      | none => exact ⟨hclean, by simp⟩
      | some cred =>
          obtain ⟨htenant, hcurrent⟩ := hcred cred rfl
          obtain ⟨hnext, hclient⟩ := getOrBuildEmbeddings_clean hclean.noStale env
            ⟨htenant, (hclean.keys _ _).mpr hcurrent⟩
          simp only
          cases hget : getOrBuildEmbeddings env s₁ cred with
          | mk s₂ client =>
              rw [hget] at hnext hclient
              cases client with
              | none => exact ⟨hclean.trans hnext, by simp⟩
              | some client =>
                  refine ⟨hclean.trans hnext, ?_⟩
                  intro c hc
                  rw [List.mem_singleton.mp hc]
                  exact (hclean.keys _ _).mp (hclient client rfl)

/-- With clean caches every call uses current keys. -/
theorem NoStaleEntry.callsCurrent (h : NoStaleEntry decrypt s) (a : CredentialAction B) :
    CallsCurrent decrypt s a := by
  intro c hc
  cases a with
  | llmCall env tenantId role =>
      obtain ⟨client, hclient, rfl⟩ := List.mem_map.mp hc
      exact (llmCall_clean h env tenantId role).2 client hclient
  | embedCall env tenantId =>
      obtain ⟨client, hclient, rfl⟩ := List.mem_map.mp hc
      exact (embedCall_clean h env tenantId).2 client hclient
  | create _ | updateCredential _ | updateRoleModels _ | updateRoleCostLimits _
  | updateFailoverChain _ | revoke _ _ _ | forceClear _ _ _ => cases hc

end Calls

end Engramia.Credentials
