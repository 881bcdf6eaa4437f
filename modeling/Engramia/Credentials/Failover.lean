import Mathlib.Data.List.Infix
import Engramia.Credentials.CostCeiling

/-!
Failover. The chain of a credential has the credential first and after it the active ones of
the tenant among the first two that it names, each of them once. A call tries the entries of a
chain in order and ends with the first one that does not fail transiently, which either answers
or raises an error that is passed on. Only when all of them fail transiently the last error is
raised.
-/
namespace Engramia.Credentials
open Engramia.Library

section Definitions
variable {ρ ε : Type}

/-- What a provider of a chain does with a call. -/
inductive ProviderAnswer (ρ ε : Type) where
  | returned (result : ρ)
  | raised (exc : ε)

inductive ChainError (ε : Type) where
  | provider (exc : ε)
  | emptyChain

variable (answer : ChainEntry → ProviderAnswer ρ ε) (isAuthError : ε → Bool)

/-- The loop of `call` over a chain: the entries it tries and how it ends. -/
def callChain : Option ε → List ChainEntry → List ChainEntry × Except (ChainError ε) ρ
  | none, [] => ([], .error .emptyChain)
  | some exc, [] => ([], .error (.provider exc))
  | _, e :: rest =>
      match answer e with
      | .returned result => ([e], .ok result)
      | .raised exc =>
          if isAuthError exc then ([e], .error (.provider exc))
          else
            let after := callChain (some exc) rest
            (e :: after.1, after.2)

/-- An entry whose failure lets the call go on. -/
def FailsOver (e : ChainEntry) : Prop :=
  ∃ exc, answer e = .raised exc ∧ isAuthError exc = false

/-- All the entries before this one fail over. -/
def Reaches (chain : List ChainEntry) (e : ChainEntry) : Prop :=
  ∃ before after, chain = before ++ e :: after ∧ ∀ x ∈ before, FailsOver answer isAuthError x

/-- A row of the tenant that is active. -/
def ActiveRow {B : Type} (rows : CredentialTable B) (tenantId id : String) : Prop :=
  ∃ r ∈ rows.rows, r.id = id ∧ r.tenantId = tenantId ∧ r.status = .active

/-- A chain as it is built for a credential over some rows. -/
structure FailoverChain {B : Type} (rows : CredentialTable B) (cred : TenantCredential)
    (chain : List ChainEntry) : Prop where
  primary : ∃ e fallbacks, chain = e :: fallbacks ∧ e.credentialId = cred.id
  bounded : chain.length ≤ failoverChainMaxLen
  distinct : (chain.map ChainEntry.credentialId).Nodup
  fallbacks : ∀ e ∈ chain, e.credentialId = cred.id ∨
    ActiveRow rows cred.tenantId e.credentialId
  active : ActiveRow rows cred.tenantId cred.id →
    ∀ e ∈ chain, ActiveRow rows cred.tenantId e.credentialId

/-- A call over a chain, by the entries it has tried and its end. -/
structure FailsOverInOrder (chain : List ChainEntry)
    (call : List ChainEntry × Except (ChainError ε) ρ) : Prop where
  tried : call.1 <+: chain
  stops : ∀ before e after, chain = before ++ e :: after →
    (∀ x ∈ before, FailsOver answer isAuthError x) → ¬ FailsOver answer isAuthError e →
      call.1 = before ++ [e]
  returns : ∀ result, call.2 = .ok result ↔
    ∃ e, Reaches answer isAuthError chain e ∧ answer e = .returned result
  authError : ∀ exc, isAuthError exc = true → (call.2 = .error (.provider exc) ↔
    ∃ e, Reaches answer isAuthError chain e ∧ answer e = .raised exc)
  transient : (∃ exc, isAuthError exc = false ∧ call.2 = .error (.provider exc)) ↔
    ∀ e ∈ chain, FailsOver answer isAuthError e
  last : (∀ e ∈ chain, FailsOver answer isAuthError e) →
    call.1 = chain ∧ ∃ e exc, chain.getLast? = some e ∧ answer e = .raised exc ∧
      call.2 = .error (.provider exc)

end Definitions

section Calls
variable {ρ ε : Type} {answer : ChainEntry → ProviderAnswer ρ ε} {isAuthError : ε → Bool}
  {chain before after : List ChainEntry} {e : ChainEntry}

theorem callChain_failsOver (last : Option ε) {exc : ε} (h : answer e = .raised exc)
    (hauth : isAuthError exc = false) :
    callChain answer isAuthError last (e :: chain) =
      (e :: (callChain answer isAuthError (some exc) chain).1,
        (callChain answer isAuthError (some exc) chain).2) := by
  cases last <;> simp [callChain, h, hauth]

theorem callChain_stops (last : Option ε)
    (h : ∀ x ∈ before, FailsOver answer isAuthError x)
    (he : ¬ FailsOver answer isAuthError e) :
    (callChain answer isAuthError last (before ++ e :: after)).1 = before ++ [e] ∧
      (∀ result, answer e = .returned result →
        (callChain answer isAuthError last (before ++ e :: after)).2 = .ok result) ∧
      ∀ exc, answer e = .raised exc →
        (callChain answer isAuthError last (before ++ e :: after)).2 = .error (.provider exc) := by
  induction before generalizing last with
  | nil =>
      rw [List.nil_append, List.nil_append]
      cases hanswer : answer e with
      | returned result =>
          have hcall : callChain answer isAuthError last (e :: after) = ([e], .ok result) := by
            cases last <;> simp [callChain, hanswer]
          rw [hcall]
          exact ⟨rfl, fun _ h => (by cases h; rfl), fun _ h => (by cases h)⟩
      | raised exc =>
          have hauth : isAuthError exc = true := by
            by_contra hno
            exact he ⟨exc, hanswer, Bool.not_eq_true _ ▸ hno⟩
          have hcall : callChain answer isAuthError last (e :: after) =
              ([e], .error (.provider exc)) := by
            cases last <;> simp [callChain, hanswer, hauth]
          rw [hcall]
          exact ⟨rfl, fun _ h => (by cases h), fun _ h => (by cases h; rfl)⟩
  | cons x before ih =>
      obtain ⟨hx, hbefore⟩ := List.forall_mem_cons.mp h
      obtain ⟨exc, hraised, hauth⟩ := hx
      rw [List.cons_append, callChain_failsOver last hraised hauth, List.cons_append]
      obtain ⟨htried, hreturns, hraises⟩ := ih (some exc) hbefore
      exact ⟨congrArg (x :: ·) htried, hreturns, hraises⟩

theorem callChain_exhausted (last : Option ε) (he : FailsOver answer isAuthError e)
    (h : ∀ x ∈ chain, FailsOver answer isAuthError x) :
    (callChain answer isAuthError last (e :: chain)).1 = e :: chain ∧
      ∃ x exc, (e :: chain).getLast? = some x ∧ answer x = .raised exc ∧
        isAuthError exc = false ∧
        (callChain answer isAuthError last (e :: chain)).2 = .error (.provider exc) := by
  induction chain generalizing e last with
  | nil =>
      obtain ⟨exc, hraised, hauth⟩ := he
      rw [callChain_failsOver last hraised hauth]
      exact ⟨rfl, e, exc, rfl, hraised, hauth, rfl⟩
  | cons x chain ih =>
      obtain ⟨exc, hraised, hauth⟩ := he
      obtain ⟨hx, hchain⟩ := List.forall_mem_cons.mp h
      obtain ⟨htried, y, exc', hlast, hraised', hauth', hend⟩ := ih (some exc) hx hchain
      rw [callChain_failsOver last hraised hauth]
      refine ⟨congrArg (e :: ·) htried, y, exc', ?_, hraised', hauth', hend⟩
      rw [List.getLast?_cons_cons]
      exact hlast

theorem exists_stop (h : ¬ ∀ x ∈ chain, FailsOver answer isAuthError x) :
    ∃ before e after, chain = before ++ e :: after ∧
      (∀ x ∈ before, FailsOver answer isAuthError x) ∧ ¬ FailsOver answer isAuthError e := by
  induction chain with
  | nil => exact (h fun x hx => by cases hx).elim
  | cons x chain ih =>
      by_cases hx : FailsOver answer isAuthError x
      · have hrest : ¬ ∀ y ∈ chain, FailsOver answer isAuthError y :=
          fun hall => h (List.forall_mem_cons.mpr ⟨hx, hall⟩)
        obtain ⟨before, e, after, rfl, hbefore, he⟩ := ih hrest
        exact ⟨x :: before, e, after, rfl, List.forall_mem_cons.mpr ⟨hx, hbefore⟩, he⟩
      · exact ⟨[], x, chain, rfl, fun y hy => (by cases hy), hx⟩

theorem not_failsOver_of_returned {result : ρ} (h : answer e = .returned result) :
    ¬ FailsOver answer isAuthError e := by
  intro hfails
  obtain ⟨exc, hraised, _⟩ := hfails
  rw [h] at hraised
  cases hraised

theorem not_failsOver_of_auth {exc : ε} (h : answer e = .raised exc)
    (hauth : isAuthError exc = true) : ¬ FailsOver answer isAuthError e := by
  intro hfails
  obtain ⟨exc', hraised, hno⟩ := hfails
  rw [h] at hraised
  cases hraised
  rw [hauth] at hno
  cases hno

theorem inOrder_of_exhausted {e : ChainEntry} {fallbacks : List ChainEntry}
    (hall : ∀ x ∈ e :: fallbacks, FailsOver answer isAuthError x) :
    FailsOverInOrder answer isAuthError (e :: fallbacks)
      (callChain answer isAuthError none (e :: fallbacks)) := by
  obtain ⟨he, hfallbacks⟩ := List.forall_mem_cons.mp hall
  obtain ⟨htried, x, exc, hlast, hraised, hauth, hend⟩ :=
    callChain_exhausted none he hfallbacks
  have hnone : ∀ y, Reaches answer isAuthError (e :: fallbacks) y →
      FailsOver answer isAuthError y := by
    intro y hy
    obtain ⟨before, after, hsplit, _⟩ := hy
    exact hall y (hsplit ▸ List.mem_append_right before List.mem_cons_self)
  constructor
  · rw [htried]
  · intro before y after hsplit _ hy
    exact (hy (hall y (hsplit ▸ List.mem_append_right before List.mem_cons_self))).elim
  · intro result
    rw [hend]
    refine iff_of_false (fun h => by cases h) ?_
    intro h
    obtain ⟨y, hy, hreturned⟩ := h
    exact not_failsOver_of_returned hreturned (hnone y hy)
  · intro exc' hauth'
    rw [hend]
    refine iff_of_false ?_ ?_
    · intro h
      cases h
      rw [hauth] at hauth'
      cases hauth'
    · intro h
      obtain ⟨y, hy, hraised'⟩ := h
      exact not_failsOver_of_auth hraised' hauth' (hnone y hy)
  · exact iff_of_true ⟨exc, hauth, hend⟩ hall
  · exact fun _ => ⟨htried, x, exc, hlast, hraised, hend⟩

theorem inOrder_of_stop {before after : List ChainEntry} {x : ChainEntry}
    (hbefore : ∀ y ∈ before, FailsOver answer isAuthError y)
    (hx : ¬ FailsOver answer isAuthError x) :
    FailsOverInOrder answer isAuthError (before ++ x :: after)
      (callChain answer isAuthError none (before ++ x :: after)) := by
  have hstop : ¬ ∀ y ∈ before ++ x :: after, FailsOver answer isAuthError y :=
    fun hall => hx (hall x (List.mem_append_right before List.mem_cons_self))
  obtain ⟨htried, hreturns, hraises⟩ := callChain_stops none hbefore hx
  have hreaches : Reaches answer isAuthError (before ++ x :: after) x :=
    ⟨before, after, rfl, hbefore⟩
  constructor
  · rw [htried]
    exact ⟨after, by simp⟩
  · intro before' y after' hsplit' hbefore' hy
    rw [hsplit']
    exact (callChain_stops none hbefore' hy).1
  · intro result
    constructor
    · intro h
      cases hanswer : answer x with
      | returned result' =>
          rw [hreturns result' hanswer] at h
          cases h
          exact ⟨x, hreaches, hanswer⟩
      | raised exc =>
          rw [hraises exc hanswer] at h
          cases h
    · intro h
      obtain ⟨y, hy, hreturned⟩ := h
      obtain ⟨before', after', hsplit', hbefore'⟩ := hy
      rw [hsplit']
      exact (callChain_stops none hbefore' (not_failsOver_of_returned hreturned)).2.1 _ hreturned
  · intro exc hauth
    constructor
    · intro h
      cases hanswer : answer x with
      | returned result =>
          rw [hreturns result hanswer] at h
          cases h
      | raised exc' =>
          rw [hraises exc' hanswer] at h
          cases h
          exact ⟨x, hreaches, hanswer⟩
    · intro h
      obtain ⟨y, hy, hraised⟩ := h
      obtain ⟨before', after', hsplit', hbefore'⟩ := hy
      rw [hsplit']
      exact (callChain_stops none hbefore' (not_failsOver_of_auth hraised hauth)).2.2 _ hraised
  · refine iff_of_false ?_ hstop
    intro h
    obtain ⟨exc, hauth, hend⟩ := h
    cases hanswer : answer x with
    | returned result =>
        rw [hreturns result hanswer] at hend
        cases hend
    | raised exc' =>
        rw [hraises exc' hanswer] at hend
        cases hend
        exact hx ⟨exc, hanswer, hauth⟩
  · exact fun h => (hstop h).elim

theorem callChain_inOrder (e : ChainEntry) (fallbacks : List ChainEntry) :
    FailsOverInOrder answer isAuthError (e :: fallbacks)
      (callChain answer isAuthError none (e :: fallbacks)) := by
  by_cases hall : ∀ x ∈ e :: fallbacks, FailsOver answer isAuthError x
  · exact inOrder_of_exhausted hall
  · obtain ⟨before, x, after, hsplit, hbefore, hx⟩ := exists_stop hall
    rw [hsplit]
    exact inOrder_of_stop hbefore hx

end Calls

section Chains
variable {B : Type} {decrypt : String → Provider → Purpose → B → Option String} {env : CallEnv}
  {s : Byok B} {rows : CredentialTable B} {tenantId id k : String} {cred : TenantCredential}

theorem activeRow_of_markInvalid {now : Int} (h : ActiveRow (markInvalid rows k now) tenantId id) :
    ActiveRow rows tenantId id := by
  obtain ⟨r', hr', hid, htenant, hactive⟩ := h
  obtain ⟨r, hr, heq⟩ := List.mem_map.mp hr'
  by_cases hk : r.id = k
  · rw [if_pos (decide_eq_true hk)] at heq
    subst heq
    cases hactive
  · rw [if_neg fun h => hk (of_decide_eq_true h)] at heq
    subst heq
    exact ⟨r, hr, hid, htenant, hactive⟩

theorem activeRow_of_decryptRow {r : StoredCredential B}
    (h : ActiveRow (decryptRow decrypt env s r).1.rows tenantId id) :
    ActiveRow s.rows tenantId id := by
  rw [decryptRow] at h
  split at h
  · exact h
  · split at h
    · exact activeRow_of_markInvalid h
    · exact h

theorem activeRow_of_resolveById {t i : String}
    (h : ActiveRow (resolveById decrypt env s t i).1.rows tenantId id) :
    ActiveRow s.rows tenantId id := by
  rw [resolveById] at h
  split at h
  · exact h
  · split at h
    · exact activeRow_of_decryptRow h
    · exact h

theorem resolveById_active (h : (resolveById decrypt env s tenantId id).2 = some cred) :
    cred.id = id ∧ ActiveRow s.rows tenantId id := by
  rw [resolveById] at h
  cases hrow : (if env.storeDown then none else getById s.rows tenantId id) with
  | none =>
      rw [hrow] at h
      cases h
  | some r =>
      rw [hrow] at h
      have hget : getById s.rows tenantId id = some r := by
        cases hdown : env.storeDown with
        | true =>
            rw [hdown] at hrow
            cases hrow
        | false =>
            rw [hdown] at hrow
            exact hrow
      obtain ⟨hmem, hid, htenant⟩ := getById_eq_some.mp hget
      dsimp only at h
      by_cases hactive : r.status = .active
      · rw [if_pos hactive, decryptRow] at h
        refine ⟨?_, r, hmem, hid, htenant, hactive⟩
        split at h
        · cases h
        · split at h
          · cases h
          · cases h
            exact hid
      · rw [if_neg hactive] at h
        cases h

variable (decrypt) in
theorem buildFallbacks_spec (env : CallEnv) (tenantId role : String) (ids seen : List String)
    (s : Byok B) :
    (buildFallbacks decrypt env tenantId role ids seen s).2.length ≤ ids.length ∧
      ((buildFallbacks decrypt env tenantId role ids seen s).2.map
        ChainEntry.credentialId).Nodup ∧
      ∀ e ∈ (buildFallbacks decrypt env tenantId role ids seen s).2,
        e.credentialId ∉ seen ∧ ActiveRow s.rows tenantId e.credentialId := by
  induction ids generalizing seen s with
  | nil => exact ⟨le_refl _, List.nodup_nil, fun e he => by cases he⟩
  | cons id ids ih =>
      rw [buildFallbacks]
      by_cases hseen : id ∈ seen
      · rw [if_pos hseen]
        obtain ⟨hlen, hrest⟩ := ih seen s
        exact ⟨Nat.le_succ_of_le hlen, hrest⟩
      · rw [if_neg hseen]
        dsimp only
        obtain ⟨hlen, hnodup, hentries⟩ := ih (id :: seen) (resolveById decrypt env s tenantId id).1
        have hlater : ∀ e ∈ (buildFallbacks decrypt env tenantId role ids (id :: seen)
            (resolveById decrypt env s tenantId id).1).2,
            e.credentialId ∉ seen ∧ ActiveRow s.rows tenantId e.credentialId := by
          intro e he
          obtain ⟨hnot, hrow⟩ := hentries e he
          exact ⟨fun h => hnot (List.mem_cons_of_mem _ h), activeRow_of_resolveById hrow⟩
        cases hfound : (resolveById decrypt env s tenantId id).2 with
        | none => exact ⟨Nat.le_succ_of_le hlen, hnodup, hlater⟩
        | some cred =>
            dsimp only
            cases hclient : buildOneLlm env.installed cred role with
            | none => exact ⟨Nat.le_succ_of_le hlen, hnodup, hlater⟩
            | some client =>
                obtain ⟨hid, hrow⟩ := resolveById_active hfound
                refine ⟨Nat.succ_le_succ hlen, ?_, ?_⟩
                · refine List.nodup_cons.mpr ⟨?_, hnodup⟩
                  intro hmem
                  obtain ⟨e, he, heq⟩ := List.mem_map.mp hmem
                  refine (hentries e he).1 ?_
                  rw [heq, hid]
                  exact List.mem_cons_self
                · intro e he
                  cases List.mem_cons.mp he with
                  | inl heq =>
                      subst heq
                      rw [hid]
                      exact ⟨hseen, hrow⟩
                  | inr he => exact hlater e he

theorem buildLlmChain_spec {role : String} {s' : Byok B} {chain : List ChainEntry}
    (h : buildLlmChain decrypt env s cred role = (s', some chain)) :
    FailoverChain s.rows cred chain := by
  rw [buildLlmChain] at h
  cases hclient : buildOneLlm env.installed cred role with
  | none =>
      rw [hclient] at h
      cases h
  | some client =>
      rw [hclient] at h
      cases h
      obtain ⟨hlen, hnodup, hentries⟩ := buildFallbacks_spec decrypt env
        cred.tenantId role (cred.failoverChain.take (failoverChainMaxLen - 1)) [cred.id] s
      have hactive : ∀ e ∈ (⟨client, cred.id⟩ :: (buildFallbacks decrypt env cred.tenantId role
          (cred.failoverChain.take (failoverChainMaxLen - 1)) [cred.id] s).2 : List ChainEntry),
          e.credentialId = cred.id ∨ ActiveRow s.rows cred.tenantId e.credentialId := by
        intro e he
        cases List.mem_cons.mp he with
        | inl heq => exact .inl (congrArg ChainEntry.credentialId heq)
        | inr he => exact .inr (hentries e he).2
      constructor
      · exact ⟨_, _, rfl, rfl⟩
      · rw [List.length_take] at hlen
        rw [List.length_cons]
        exact Nat.succ_le_succ (hlen.trans (min_le_left _ _))
      · refine List.nodup_cons.mpr ⟨?_, hnodup⟩
        intro hmem
        obtain ⟨e, he, heq⟩ := List.mem_map.mp hmem
        exact (hentries e he).1 (List.mem_singleton.mpr heq)
      · exact hactive
      · intro hprimary e he
        cases hactive e he with
        | inl heq =>
            rw [heq]
            exact hprimary
        | inr hrow => exact hrow

end Chains

section Counted
variable {ρ ε : Type}

/-- How an answer counts for a chain. -/
def ProviderAnswer.outcome (isAuthError : ε → Bool) : ProviderAnswer ρ ε → CallOutcome
  | .returned _ => .success
  | .raised exc => if isAuthError exc then .authError else .transientError

theorem called_eq (answer : ChainEntry → ProviderAnswer ρ ε) (isAuthError : ε → Bool)
    (last : Option ε) (chain : List ChainEntry) :
    called chain (chain.map fun e => (answer e).outcome isAuthError) =
      (callChain answer isAuthError last chain).1.map ChainEntry.client := by
  induction chain generalizing last with
  | nil => cases last <;> rfl
  | cons e chain ih =>
      cases hanswer : answer e with
      | returned result => cases last <;> simp [called, callChain, hanswer, ProviderAnswer.outcome]
      | raised exc =>
          cases hauth : isAuthError exc with
          | true =>
              cases last <;> simp [called, callChain, hanswer, hauth, ProviderAnswer.outcome]
          | false =>
              rw [callChain_failsOver last hanswer hauth, List.map_cons, List.map_cons, hanswer,
                ← ih (some exc)]
              simp [called, hauth, ProviderAnswer.outcome]

end Counted

/-- A chain that is built has the credential first, at most three entries, no id twice and
otherwise active credentials of the tenant, and a call over it tries the entries in order,
each at most once, and fails over only on transient errors. -/
theorem failover_semantics {B ρ ε : Type}
    (decrypt : String → Provider → Purpose → B → Option String) (env : CallEnv) (s s' : Byok B)
    (cred : TenantCredential) (role : String) (chain : List ChainEntry)
    (answer : ChainEntry → ProviderAnswer ρ ε) (isAuthError : ε → Bool)
    (h : buildLlmChain decrypt env s cred role = (s', some chain)) :
    FailoverChain s.rows cred chain ∧
      FailsOverInOrder answer isAuthError chain (callChain answer isAuthError none chain) ∧
      ((callChain answer isAuthError none chain).1.map ChainEntry.credentialId).Nodup := by
  have hchain := buildLlmChain_spec h
  obtain ⟨e, fallbacks, rfl, hid⟩ := hchain.primary
  have horder : FailsOverInOrder answer isAuthError (e :: fallbacks)
      (callChain answer isAuthError none (e :: fallbacks)) := callChain_inOrder e fallbacks
  exact ⟨hchain, horder, hchain.distinct.sublist (horder.tried.sublist.map _)⟩

def failoverEnv : CallEnv := ⟨0, false, fun _ => false, fun _ => true, none, []⟩

def primaryCredential : TenantCredential where
  id := "cred-1"
  tenantId := "acme"
  provider := .openai
  purpose := .llm
  apiKey := "sk-openai"
  baseUrl := none
  defaultModel := none
  defaultEmbedModel := none
  roleModels := []
  failoverChain := ["cred-1", "cred-2", "cred-2"]
  roleCostLimits := []
  status := .active

def twoEntries : List ChainEntry :=
  [⟨⟨.openai, "sk-openai", "gpt-4.1", none⟩, "cred-1"⟩,
    ⟨⟨.anthropic, "sk-anthropic", "claude-sonnet-4-6", none⟩, "cred-2"⟩]

/-- The primary times out. -/
def fallbackAnswers (e : ChainEntry) : ProviderAnswer String String :=
  if e.credentialId = "cred-1" then .raised "timeout" else .returned "done"

/-- A chain that names the credential itself, and a call that its fallback answers. -/
theorem failover_semantics_two_entries :
    FailoverChain ceilingRows primaryCredential twoEntries ∧
      FailsOverInOrder fallbackAnswers (fun _ => false) twoEntries
        (twoEntries, .ok "done") ∧
      (twoEntries.map ChainEntry.credentialId).Nodup :=
  failover_semantics plainDecrypt failoverEnv ceilingByok ceilingByok primaryCredential
    "default" twoEntries fallbackAnswers (fun _ => false) rfl

end Engramia.Credentials
