import Engramia.Credentials.RoleMeter
import Engramia.Credentials.Rotation
import Engramia.Library.Lists
import Mathlib.Algebra.Order.BigOperators.Group.List
import Mathlib.Algebra.Order.Ring.Nat

/-!
The monthly ceiling on a role's spend. A call asks the meter before it builds
its chain, and the credential that answers is charged afterwards; the state
keeps a list of what was charged, with the ceiling each call was let through
under.

Two things limit what the ceiling says: a charge is rounded down, and it is
made to the credential that answered, while the gate asks about the one the
call was resolved for.
-/
namespace Engramia.Credentials

open Engramia.Library

/-- A call for a role in a month, with what its provider reports and the meter's failures. -/
structure LlmRequest where
  tenantId : String
  role : String
  month : String
  env : CallEnv
  usage : Option Usage
  readFails : Bool
  writeFails : Bool

/-- The credential a call resolved, the role left after the gate and the chain it tries. -/
structure PlannedCall where
  cred : TenantCredential
  role : String
  chain : List ChainEntry

/-- A call that was charged. -/
structure Booking where
  key : SpendKey
  resolvedId : String
  /-- What the credential it was resolved for allows the role, if the meter was read. -/
  ceiling : Option Nat
  rate : Rate
  usage : Usage
deriving DecidableEq

structure MeteredCalls (B : Type) where
  byok : Byok B
  counters : SpendCounters
  booked : List Booking

def LlmRequest.key (q : LlmRequest) (credentialId role : String) : SpendKey :=
  ⟨q.tenantId, credentialId, role, q.month⟩

/-- The entry of a chain that answers: the first one without an error, unless an
authentication error comes before it. -/
def served : List ChainEntry → List CallOutcome → Option ChainEntry
  | e :: _, .success :: _ => some e
  | _ :: rest, .transientError :: outcomes => served rest outcomes
  | _, _ => none

/-- `_meter_after_call`. -/
def meterAfterCall (counters : SpendCounters) (q : LlmRequest) (e : ChainEntry) (role : String) :
    SpendCounters :=
  match q.usage with
  | none => counters
  | some u =>
      match costFor e.client.provider e.client.model u with
      | none => counters
      | some costCents =>
          incrementSpend counters (q.key e.credentialId role) costCents u q.writeFails

/-- The record of a charge. -/
def PlannedCall.booking (plan : PlannedCall) (q : LlmRequest) (e : ChainEntry) :
    Option Booking :=
  match q.usage, rateCard.lookup (e.client.provider, e.client.model), q.writeFails with
  | some u, some rate, false =>
      some
        { key := q.key e.credentialId plan.role
          resolvedId := plan.cred.id
          ceiling := if q.readFails then none else plan.cred.costCeilingForRole plan.role
          rate := rate
          usage := u }
  | _, _, _ => none

section Calls
variable {B : Type} (decrypt : String → Provider → Purpose → B → Option String)

/-- What the gate of a call reads. -/
def gateEnv (s : MeteredCalls B) (q : LlmRequest) (cred : TenantCredential) : CallEnv :=
  { q.env with spend := some (getSpend s.counters (q.key cred.id q.role) q.readFails) }

def planCall (s : MeteredCalls B) (q : LlmRequest) : Byok B × Option PlannedCall :=
  match resolve decrypt q.env s.byok q.tenantId .llm with
  | (byok, none) => (byok, none)
  | (byok, some cred) =>
      let role := applyCostCeiling (gateEnv s q cred) cred q.role
      match getOrBuildChain decrypt q.env byok cred role with
      | (byok, none) => (byok, none)
      | (byok, some chain) => (byok, some ⟨cred, role, chain⟩)

/-- `TenantScopedLLMProvider.call`. -/
def meteredCall (s : MeteredCalls B) (q : LlmRequest) : MeteredCalls B :=
  match planCall decrypt s q with
  | (byok, none) => { s with byok := byok }
  | (byok, some plan) =>
      match served plan.chain q.env.outcomes with
      | none => { s with byok := byok }
      | some e =>
          { byok := byok
            counters := meterAfterCall s.counters q e plan.role
            booked := s.booked ++ (plan.booking q e).toList }

/-- The calls charged to a key whose credential they were also resolved for. -/
def ownCalls (k : SpendKey) (booked : List Booking) : List Booking :=
  booked.filter fun b => b.key = k ∧ b.resolvedId = k.credentialId

def exactCost (booked : List Booking) : Nat :=
  (booked.map fun b => b.rate.exactCost b.usage).sum

def costCents (booked : List Booking) : Nat :=
  (booked.map fun b => b.rate.costCents b.usage).sum

/-- Rounding the charge down has lost less than a cent. -/
def Booking.roundedOnce (b : Booking) : Bool :=
  b.rate.exactCost b.usage < (b.rate.costCents b.usage + 1) * million

/-- Before every call charged under a ceiling less than the ceiling was recorded, and what
the earlier calls cost that lost less than a cent exceeds that by less than a cent for each. -/
def WithinCeiling (s : MeteredCalls B) : Prop :=
  ∀ k earlier b later, ownCalls k s.booked = earlier ++ b :: later → k.role ≠ "default" →
    ∀ cap ∈ b.ceiling, costCents earlier < cap ∧
      exactCost (earlier.filter Booking.roundedOnce) <
        (cap + (earlier.filter Booking.roundedOnce).length) * million

/-- What the model of a role is by a row. -/
def StoredCredential.modelForRole (r : StoredCredential B) (role : String) : String :=
  (r.toTenantCredential "").modelForRole role

theorem modelForRole_of_lookup_none {r : StoredCredential B} {role : String}
    (h : (r.toTenantCredential "").roleModels.lookup role = none) :
    r.modelForRole role =
      orText (r.toTenantCredential "").defaultModel (defaultModelFor r.provider) := by
  rw [StoredCredential.modelForRole, TenantCredential.modelForRole, h]
  rfl

/-- At the ceiling a call runs under the role `default`: what it may call is, for a
credential that has no model of its own for that role, the default model. -/
def DefaultAtCeiling (s : MeteredCalls B) (q : LlmRequest) : Prop :=
  ∀ plan ∈ (planCall decrypt s q).2, ∀ cap ∈ plan.cred.costCeilingForRole q.role,
    q.readFails = false → cap ≤ getSpend s.counters (q.key plan.cred.id q.role) false →
      plan.role = "default" ∧
      ∀ e ∈ plan.chain, ∃ r ∈ (planCall decrypt s q).1.rows.rows,
        r.id = e.credentialId ∧ r.tenantId = q.tenantId ∧ r.provider = e.client.provider ∧
        ((r.toTenantCredential "").roleModels.lookup "default" = none →
          e.client.model =
            orText (r.toTenantCredential "").defaultModel (defaultModelFor r.provider))

variable {decrypt}

section Plan
variable {env : CallEnv}

theorem buildFallbacks_spend (spend : Option Nat) (tenantId role : String)
    (ids seen : List String) (s : Byok B) :
    buildFallbacks decrypt { env with spend := spend } tenantId role ids seen s =
      buildFallbacks decrypt env tenantId role ids seen s := by
  induction ids generalizing seen s with
  | nil => rfl
  | cons id rest ih =>
      rw [buildFallbacks, buildFallbacks]
      split
      · exact ih seen s
      · have hsame : resolveById decrypt { env with spend := spend } s tenantId id =
            resolveById decrypt env s tenantId id := rfl
        simp only [hsame, ih]

theorem getOrBuildChain_spend (spend : Option Nat) (s : Byok B) (cred : TenantCredential)
    (role : String) :
    getOrBuildChain decrypt { env with spend := spend } s cred role =
      getOrBuildChain decrypt env s cred role := by
  simp only [getOrBuildChain, buildLlmChain, buildFallbacks_spend]

theorem planCall_llmCall (s : MeteredCalls B) (q : LlmRequest) :
    llmCall decrypt
        { q.env with
          spend := (resolve decrypt q.env s.byok q.tenantId .llm).2.map fun cred =>
            getSpend s.counters (q.key cred.id q.role) q.readFails } s.byok q.tenantId q.role =
      ((planCall decrypt s q).1,
        ((planCall decrypt s q).2.map fun plan => called plan.chain q.env.outcomes).getD []) := by
  rw [llmCall, planCall]
  change (match resolve decrypt q.env s.byok q.tenantId .llm with
    | (s, none) => _
    | (s, some cred) => _) = _
  cases hres : resolve decrypt q.env s.byok q.tenantId .llm with
  | mk byok found =>
      cases found with
      | none => rfl
      | some cred =>
          simp only [Option.map_some, getOrBuildChain_spend, gateEnv]
          cases hget : getOrBuildChain decrypt q.env byok cred _ with
          | mk byok' chain =>
              cases chain with
              | none => rfl
              | some chain => rfl

end Plan

section Ceiling

theorem exactCost_roundedOnce_le {booked : List Booking}
    (h : ∀ b ∈ booked, b.roundedOnce = true) :
    exactCost booked ≤ (costCents booked + booked.length) * million := by
  induction booked with
  | nil => exact Nat.zero_le _
  | cons b booked ih =>
      have hb := of_decide_eq_true (h b List.mem_cons_self)
      have hrest := ih fun b' hb' => h b' (List.mem_cons_of_mem b hb')
      simp only [exactCost, costCents, million, List.map_cons, List.sum_cons,
        List.length_cons] at *
      omega

theorem costCents_filter_le (p : Booking → Bool) (booked : List Booking) :
    costCents (booked.filter p) ≤ costCents booked :=
  (List.filter_sublist.map _).sum_le_sum fun _ _ => Nat.zero_le _

theorem costCents_append (xs ys : List Booking) :
    costCents (xs ++ ys) = costCents xs + costCents ys := by
  rw [costCents, List.map_append, List.sum_append]
  rfl

theorem applyCostCeiling_through {env : CallEnv} {cred : TenantCredential} {role : String}
    {spend : Nat} (hspend : env.spend = some spend)
    (hrole : applyCostCeiling env cred role ≠ "default") :
    applyCostCeiling env cred role = role ∧
      ∀ cap ∈ cred.costCeilingForRole role, spend < cap := by
  rw [applyCostCeiling, hspend] at *
  cases hcap : cred.costCeilingForRole role with
  | none => exact ⟨rfl, by simp⟩
  | some cap =>
      simp only [hcap] at hrole ⊢
      by_cases hlt : spend < cap
      · rw [if_pos hlt]
        refine ⟨rfl, ?_⟩
        intro cap' hcap'
        cases hcap'
        exact hlt
      · rw [if_neg hlt] at hrole
        exact absurd rfl hrole

theorem applyCostCeiling_reached {env : CallEnv} {cred : TenantCredential} {role : String}
    {spend cap : Nat} (hspend : env.spend = some spend)
    (hcap : cred.costCeilingForRole role = some cap) (hle : cap ≤ spend) :
    applyCostCeiling env cred role = "default" := by
  rw [applyCostCeiling, hspend, hcap]
  exact if_neg (Nat.not_lt.mpr hle)

theorem planCall_role {s : MeteredCalls B} {q : LlmRequest} {plan : PlannedCall}
    (h : (planCall decrypt s q).2 = some plan) :
    plan.role = applyCostCeiling (gateEnv s q plan.cred) plan.cred q.role := by
  rw [planCall] at h
  cases hres : resolve decrypt q.env s.byok q.tenantId .llm with
  | mk byok found =>
      rw [hres] at h
      cases found with
      | none => cases h
      | some cred =>
          simp only at h
          cases hget : getOrBuildChain decrypt q.env byok cred
              (applyCostCeiling (gateEnv s q cred) cred q.role) with
          | mk byok' chain =>
              rw [hget] at h
              cases chain with
              | none => cases h
              | some chain =>
                  cases h
                  rfl

/-- Every charge on record is in the counters. -/
def Recorded (s : MeteredCalls B) : Prop :=
  ∀ k, costCents (s.booked.filter fun b => b.key = k) ≤ getSpend s.counters k false

theorem costCents_ownCalls_le (k : SpendKey) (booked : List Booking) :
    costCents (ownCalls k booked) ≤ costCents (booked.filter fun b => b.key = k) := by
  have howned : ownCalls k booked =
      (booked.filter fun b => b.key = k).filter fun b => b.resolvedId = k.credentialId := by
    rw [ownCalls, List.filter_filter]
    exact List.filter_congr fun b _ => by rw [Bool.decide_and, Bool.and_comm]
  rw [howned]
  exact costCents_filter_le _ _

/-- The counters after a charge, if there is one. -/
def charge (counters : SpendCounters) : Option Booking → SpendCounters
  | some b => incrementSpend counters b.key (b.rate.costCents b.usage) b.usage false
  | none => counters

theorem meterAfterCall_booking (counters : SpendCounters) (q : LlmRequest) (e : ChainEntry)
    (plan : PlannedCall) :
    meterAfterCall counters q e plan.role = charge counters (plan.booking q e) := by
  rw [meterAfterCall, PlannedCall.booking]
  cases q.usage with
  | none => rfl
  | some u =>
      simp only [costFor]
      cases rateCard.lookup (e.client.provider, e.client.model) with
      | none => rfl
      | some rate =>
          cases q.writeFails with
          | false => rfl
          | true => exact incrementSpend_fails ..

variable (decrypt) in
/-- What a charge says about the call it was made for. -/
structure Charges (s : MeteredCalls B) (q : LlmRequest) (plan : PlannedCall) (b : Booking) :
    Prop where
  planned : (planCall decrypt s q).2 = some plan
  key : b.key = q.key b.key.credentialId plan.role
  resolvedId : b.resolvedId = plan.cred.id
  ceiling : b.ceiling = if q.readFails then none else plan.cred.costCeilingForRole plan.role

theorem PlannedCall.booking_some {plan : PlannedCall} {q : LlmRequest} {e : ChainEntry}
    {b : Booking} (h : plan.booking q e = some b) :
    b.key = q.key b.key.credentialId plan.role ∧ b.resolvedId = plan.cred.id ∧
      b.ceiling = if q.readFails then none else plan.cred.costCeilingForRole plan.role := by
  rw [PlannedCall.booking] at h
  split at h
  · cases h
    exact ⟨rfl, rfl, rfl⟩
  · cases h

variable (decrypt) in
theorem meteredCall_charge (s : MeteredCalls B) (q : LlmRequest) :
    ∃ charged : Option Booking,
      (meteredCall decrypt s q).counters = charge s.counters charged ∧
      (meteredCall decrypt s q).booked = s.booked ++ charged.toList ∧
      ∀ b ∈ charged, ∃ plan, Charges decrypt s q plan b := by
  have hnone (byok : Byok B) : ∃ charged : Option Booking,
      ({ s with byok := byok } : MeteredCalls B).counters = charge s.counters charged ∧
      ({ s with byok := byok } : MeteredCalls B).booked = s.booked ++ charged.toList ∧
      ∀ b ∈ charged, ∃ plan, Charges decrypt s q plan b :=
    ⟨none, rfl, (List.append_nil _).symm, by simp⟩
  rw [meteredCall]
  cases hplan : planCall decrypt s q with
  | mk byok found =>
      cases found with
      | none => exact hnone byok
      | some plan =>
          cases hserved : served plan.chain q.env.outcomes with
          | none =>
              simp only [hserved]
              exact hnone byok
          | some e =>
              simp only [hserved]
              refine ⟨plan.booking q e, meterAfterCall_booking .., rfl, ?_⟩
              intro b hb
              obtain ⟨hkey, hid, hceiling⟩ := PlannedCall.booking_some hb
              exact ⟨plan, by rw [hplan], hkey, hid, hceiling⟩

theorem recorded_step {s : MeteredCalls B} (h : Recorded s) (q : LlmRequest) :
    Recorded (meteredCall decrypt s q) := by
  obtain ⟨charged, hcounters, hbooked, -⟩ := meteredCall_charge decrypt s q
  intro k
  rw [hcounters, hbooked]
  cases charged with
  | none => simpa [charge] using h k
  | some b =>
      rw [charge, getSpend_incrementSpend, List.filter_append, costCents_append]
      have hk := h k
      by_cases heq : b.key = k
      · simp only [Option.toList, List.filter_cons, heq, decide_true, if_true, List.filter_nil,
          costCents, List.map_cons, List.map_nil, List.sum_cons, List.sum_nil]
        simp only [costCents] at hk
        omega
      · simp only [Option.toList, List.filter_cons, heq, decide_false, Bool.false_eq_true,
          if_false, List.filter_nil]
        exact Nat.add_le_add hk (Nat.zero_le _)

theorem Charges.below {s : MeteredCalls B} {q : LlmRequest} {plan : PlannedCall} {b : Booking}
    (h : Charges decrypt s q plan b) (hown : b.resolvedId = b.key.credentialId)
    (hrole : b.key.role ≠ "default") {cap : Nat} (hcap : b.ceiling = some cap) :
    getSpend s.counters b.key false < cap := by
  have hread : q.readFails = false := by
    cases hr : q.readFails with
    | false => rfl
    | true =>
        rw [h.ceiling, hr] at hcap
        cases hcap
  have hplanned : b.key.role = plan.role := by rw [h.key]; rfl
  have happlied := planCall_role h.planned
  rw [hplanned, happlied] at hrole
  obtain ⟨hsame, hbelow⟩ := applyCostCeiling_through rfl hrole
  have hkey : b.key = q.key plan.cred.id q.role := by
    rw [h.key, ← hown, h.resolvedId, happlied, hsame]
  rw [h.ceiling, hread, happlied, hsame] at hcap
  rw [hkey, ← hread]
  exact hbelow cap hcap

theorem ownCalls_concat (k : SpendKey) (booked : List Booking) (b : Booking) :
    ownCalls k (booked ++ [b]) =
      ownCalls k booked ++ if b.key = k ∧ b.resolvedId = k.credentialId then [b] else [] := by
  rw [ownCalls, List.filter_append, List.filter_singleton]
  simp [ownCalls, Bool.cond_eq_ite]

theorem withinCeiling_step {s : MeteredCalls B} (hrec : Recorded s) (h : WithinCeiling s)
    (q : LlmRequest) : WithinCeiling (meteredCall decrypt s q) := by
  obtain ⟨charged, -, hbooked, hcharged⟩ := meteredCall_charge decrypt s q
  intro k earlier b later hsplit hrole cap hcap
  rw [hbooked] at hsplit
  cases charged with
  | none =>
      rw [Option.toList_none, List.append_nil] at hsplit
      exact h k earlier b later hsplit hrole cap hcap
  | some c =>
      rw [Option.toList_some, ownCalls_concat] at hsplit
      by_cases hown : c.key = k ∧ c.resolvedId = k.credentialId
      · rw [if_pos hown] at hsplit
        cases concat_eq_append_cons hsplit with
        | inl hold =>
            obtain ⟨later', hold⟩ := hold
            exact h k earlier b later' hold hrole cap hcap
        | inr hnew =>
            obtain ⟨hinit, rfl⟩ := hnew
            obtain ⟨plan, hplan⟩ := hcharged c rfl
            obtain ⟨rfl, hid⟩ := hown
            have hspend := hplan.below hid hrole hcap
            have hle : costCents earlier < cap := by
              rw [← hinit]
              exact Nat.lt_of_le_of_lt
                (Nat.le_trans (costCents_ownCalls_le c.key s.booked) (hrec c.key)) hspend
            have hrounded := costCents_filter_le Booking.roundedOnce earlier
            refine ⟨hle, Nat.lt_of_le_of_lt (exactCost_roundedOnce_le ?_) ?_⟩
            · intro b' hb'
              exact (List.mem_filter.mp hb').2
            · exact Nat.mul_lt_mul_of_pos_right
                (Nat.add_lt_add_right (Nat.lt_of_le_of_lt hrounded hle) _) (by decide)
      · rw [if_neg hown, List.append_nil] at hsplit
        exact h k earlier b later hsplit hrole cap hcap

end Ceiling

section Models

/-- A credential of the tenant with the settings of one of its rows. -/
def Describes (rows : CredentialTable B) (tenantId : String) (cred : TenantCredential) : Prop :=
  ∃ r ∈ rows.rows, r.tenantId = tenantId ∧
    cred = { r.toTenantCredential cred.apiKey with status := cred.status }

/-- A chain entry with the model a row of the tenant has for the role. -/
def Models (rows : CredentialTable B) (tenantId role : String) (e : ChainEntry) : Prop :=
  ∃ r ∈ rows.rows, r.id = e.credentialId ∧ r.tenantId = tenantId ∧
    r.provider = e.client.provider ∧ e.client.model = r.modelForRole role

/-- The caches hold what the rows say: no settings have changed since they were filled. -/
structure FiledFromRows (s : Byok B) : Prop where
  resolved : s.resolved.All fun k v => Describes s.rows k.1 v.2
  chains : s.chains.All fun k chain => ∀ e ∈ chain, Models s.rows k.1 k.2.2 e

theorem filedFromRows_empty {s : Byok B} (hresolved : s.resolved = .empty)
    (hchains : s.chains = .empty) : FiledFromRows s where
  resolved := by
    rw [hresolved]
    exact OrderedDict.all_empty
  chains := by
    rw [hchains]
    exact OrderedDict.all_empty

/-- From `s` to `s'` no row has lost its settings, and the caches are right again. -/
structure Keeps (s s' : Byok B) : Prop where
  describes : ∀ tenantId cred, Describes s.rows tenantId cred → Describes s'.rows tenantId cred
  models : ∀ tenantId role e, Models s.rows tenantId role e → Models s'.rows tenantId role e
  filed : FiledFromRows s'

theorem Keeps.refl {s : Byok B} (h : FiledFromRows s) : Keeps s s :=
  ⟨fun _ _ h => h, fun _ _ _ h => h, h⟩

theorem Keeps.trans {s s₁ s₂ : Byok B} (h₁ : Keeps s s₁) (h₂ : Keeps s₁ s₂) : Keeps s s₂ :=
  ⟨fun t c h => h₂.describes t c (h₁.describes t c h),
    fun t r e h => h₂.models t r e (h₁.models t r e h), h₂.filed⟩

theorem Keeps.withChains {s s₁ : Byok B} (h : Keeps s s₁)
    {chains : OrderedDict (String × Provider × String) (List ChainEntry)}
    (hchains : chains.All fun k chain => ∀ e ∈ chain, Models s₁.rows k.1 k.2.2 e) :
    Keeps s { s₁ with chains := chains } :=
  ⟨h.describes, h.models, h.filed.resolved, hchains⟩

variable {s : Byok B}

theorem keeps_markInvalid (h : FiledFromRows s) (id : String) (now : Int) :
    Keeps s { s with rows := markInvalid s.rows id now } := by
  have hdescribes (tenantId : String) (cred : TenantCredential)
      (hcred : Describes s.rows tenantId cred) :
      Describes (markInvalid s.rows id now) tenantId cred := by
    obtain ⟨r, hr, htenant, hsettings⟩ := hcred
    refine ⟨_, mem_updateWhere.mpr ⟨r, hr, rfl⟩, ?_⟩
    split
    · exact ⟨htenant, hsettings⟩
    · exact ⟨htenant, hsettings⟩
  have hmodels (tenantId role : String) (e : ChainEntry) (he : Models s.rows tenantId role e) :
      Models (markInvalid s.rows id now) tenantId role e := by
    obtain ⟨r, hr, hentry⟩ := he
    refine ⟨_, mem_updateWhere.mpr ⟨r, hr, rfl⟩, ?_⟩
    split
    · exact hentry
    · exact hentry
  exact
    { describes := hdescribes
      models := hmodels
      filed :=
        { resolved := h.resolved.mono fun k v hv => hdescribes k.1 v.2 hv
          chains := h.chains.mono fun k chain hk e he => hmodels k.1 k.2.2 e (hk e he) } }

variable (decrypt)

theorem decryptRow_keeps (h : FiledFromRows s) (env : CallEnv) {r : StoredCredential B}
    (hr : r ∈ s.rows.rows) :
    Keeps s (decryptRow decrypt env s r).1 ∧
    ∀ cred, (decryptRow decrypt env s r).2 = some cred →
      Describes s.rows r.tenantId cred := by
  rw [decryptRow]
  split
  · exact ⟨Keeps.refl h, by simp⟩
  · cases r.plaintext decrypt with
    | none => exact ⟨keeps_markInvalid h r.id env.now, by simp⟩
    | some key =>
        refine ⟨Keeps.refl h, ?_⟩
        intro cred hcred
        cases hcred
        refine ⟨r, hr, rfl, ?_⟩
        simp only [StoredCredential.toTenantCredential, stripText_stripText]

theorem resolve_keeps (h : FiledFromRows s) (env : CallEnv) (tenantId : String)
    (purpose : Purpose) :
    Keeps s (resolve decrypt env s tenantId purpose).1 ∧
    ∀ cred, (resolve decrypt env s tenantId purpose).2 = some cred →
      Describes s.rows tenantId cred := by
  obtain ⟨hall, hhit⟩ := cacheGet_all h.resolved (tenantId, purpose) env.now
  rw [resolve]
  cases hget : cacheGet s.resolved (tenantId, purpose) env.now with
  | mk resolved found =>
      rw [hget] at hall hhit
      have hs : FiledFromRows { s with resolved := resolved } := ⟨hall, h.chains⟩
      cases found with
      | some cred =>
          refine ⟨⟨fun _ _ h => h, fun _ _ _ h => h, hs⟩, ?_⟩
          intro cred' hcred'
          cases hcred'
          obtain ⟨_, hdescribes⟩ := hhit cred rfl
          exact hdescribes
      | none =>
          simp only
          cases hrow : (if env.storeDown then none
              else getActiveForPurpose s.rows tenantId purpose) with
          | none => exact ⟨⟨fun _ _ h => h, fun _ _ _ h => h, hs⟩, by simp⟩
          | some r =>
              have hactive : getActiveForPurpose s.rows tenantId purpose = some r := by
                split at hrow
                · cases hrow
                · exact hrow
              obtain ⟨hr, rfl, -⟩ := getActiveForPurpose_some hactive
              obtain ⟨hkeeps, hcred⟩ := decryptRow_keeps decrypt hs env hr
              simp only
              cases hdec : decryptRow decrypt env { s with resolved := resolved } r with
              | mk s₁ found =>
                  rw [hdec] at hkeeps hcred
                  cases found with
                  | none => exact ⟨⟨hkeeps.describes, hkeeps.models, hkeeps.filed⟩, by simp⟩
                  | some cred =>
                      have hdescribes := hcred cred rfl
                      refine ⟨⟨hkeeps.describes, hkeeps.models, ?_⟩, ?_⟩
                      · exact ⟨hkeeps.filed.resolved.put _ (hkeeps.describes _ _ hdescribes),
                          hkeeps.filed.chains⟩
                      · intro cred' hcred'
                        cases hcred'
                        exact hdescribes

theorem resolveById_keeps (h : FiledFromRows s) (env : CallEnv) (tenantId id : String) :
    Keeps s (resolveById decrypt env s tenantId id).1 ∧
    ∀ cred, (resolveById decrypt env s tenantId id).2 = some cred →
      Describes s.rows tenantId cred := by
  rw [resolveById]
  cases hrow : (if env.storeDown then none else getById s.rows tenantId id) with
  | none => exact ⟨Keeps.refl h, by simp⟩
  | some r =>
      have hget : getById s.rows tenantId id = some r := by
        split at hrow
        · cases hrow
        · exact hrow
      obtain ⟨hr, -, rfl⟩ := getById_eq_some.mp hget
      simp only
      split
      · exact decryptRow_keeps decrypt h env hr
      · exact ⟨Keeps.refl h, by simp⟩

theorem models_buildOneLlm {rows : CredentialTable B} {tenantId role : String}
    {cred : TenantCredential} (hcred : Describes rows tenantId cred)
    {installed : Provider → Bool} {client : Client}
    (h : buildOneLlm installed cred role = some client) :
    Models rows tenantId role ⟨client, cred.id⟩ := by
  obtain ⟨r, hr, htenant, hsettings⟩ := hcred
  rw [hsettings] at h ⊢
  rw [buildOneLlm] at h
  split at h
  · cases h
    exact ⟨r, hr, rfl, htenant, rfl, rfl⟩
  · cases h

theorem buildFallbacks_keeps (h : FiledFromRows s) (env : CallEnv) (tenantId role : String)
    (ids seen : List String) :
    Keeps s (buildFallbacks decrypt env tenantId role ids seen s).1 ∧
    ∀ e ∈ (buildFallbacks decrypt env tenantId role ids seen s).2,
      Models (buildFallbacks decrypt env tenantId role ids seen s).1.rows tenantId role e := by
  induction ids generalizing seen s with
  | nil => exact ⟨Keeps.refl h, by simp [buildFallbacks]⟩
  | cons id rest ih =>
      rw [buildFallbacks]
      split
      · exact ih h seen
      · obtain ⟨hkeeps, hcred⟩ := resolveById_keeps decrypt h env tenantId id
        obtain ⟨hrest, hentries⟩ := ih hkeeps.filed (id :: seen)
        simp only
        cases hfound : (resolveById decrypt env s tenantId id).2 with
        | none => exact ⟨hkeeps.trans hrest, hentries⟩
        | some cred =>
            cases hbuild : buildOneLlm env.installed cred role with
            | none =>
                simp only [hbuild]
                exact ⟨hkeeps.trans hrest, hentries⟩
            | some client =>
                simp only [hbuild]
                refine ⟨hkeeps.trans hrest, ?_⟩
                intro e he
                cases List.mem_cons.mp he with
                | inl hnew =>
                    rw [hnew]
                    exact (hkeeps.trans hrest).models _ _ _
                      (models_buildOneLlm (hcred cred hfound) hbuild)
                | inr hold => exact hentries e hold

theorem buildLlmChain_keeps (h : FiledFromRows s) (env : CallEnv) {tenantId : String}
    {cred : TenantCredential} (hcred : Describes s.rows tenantId cred)
    (htenant : cred.tenantId = tenantId) (role : String) :
    Keeps s (buildLlmChain decrypt env s cred role).1 ∧
    ∀ chain, (buildLlmChain decrypt env s cred role).2 = some chain →
      ∀ e ∈ chain, Models (buildLlmChain decrypt env s cred role).1.rows tenantId role e := by
  rw [buildLlmChain]
  cases hbuild : buildOneLlm env.installed cred role with
  | none => exact ⟨Keeps.refl h, by simp⟩
  | some client =>
      obtain ⟨hkeeps, hentries⟩ := buildFallbacks_keeps decrypt h env
        cred.tenantId role (cred.failoverChain.take (failoverChainMaxLen - 1)) [cred.id]
      refine ⟨hkeeps, ?_⟩
      intro chain hchain e he
      cases hchain
      rw [← htenant] at hcred ⊢
      cases List.mem_cons.mp he with
      | inl hnew =>
          rw [hnew]
          exact hkeeps.models _ _ _ (models_buildOneLlm hcred hbuild)
      | inr hold => exact hentries e hold

theorem getOrBuildChain_built {env : CallEnv} {cred : TenantCredential} {role : String}
    {s₁ : Byok B} {chain : List ChainEntry}
    (hget : s.chains.get? (cred.tenantId, cred.provider, role) = none)
    (hbuild : buildLlmChain decrypt env s cred role = (s₁, some chain)) :
    getOrBuildChain decrypt env s cred role =
      ({ s₁ with
        chains := s₁.chains.put providerCacheMax (cred.tenantId, cred.provider, role) chain },
        some chain) := by
  rw [getOrBuildChain, hget, hbuild]

theorem getOrBuildChain_keeps (h : FiledFromRows s) (env : CallEnv) {tenantId : String}
    {cred : TenantCredential} (hcred : Describes s.rows tenantId cred) (role : String) :
    Keeps s (getOrBuildChain decrypt env s cred role).1 ∧
    ∀ chain, (getOrBuildChain decrypt env s cred role).2 = some chain →
      ∀ e ∈ chain, Models (getOrBuildChain decrypt env s cred role).1.rows tenantId role e := by
  have htenant : cred.tenantId = tenantId := by
    obtain ⟨r, -, hr, hsettings⟩ := hcred
    rw [hsettings]
    exact hr
  subst htenant
  cases hget : s.chains.get? (cred.tenantId, cred.provider, role) with
  | some chain =>
      rw [getOrBuildChain, hget]
      refine ⟨⟨fun _ _ h => h, fun _ _ _ h => h, ⟨h.resolved, h.chains.moveToEnd _⟩⟩, ?_⟩
      intro chain' hchain'
      cases hchain'
      exact h.chains.get? hget
  | none =>
      obtain ⟨hkeeps, hchain⟩ := buildLlmChain_keeps decrypt h env hcred rfl role
      cases hbuild : buildLlmChain decrypt env s cred role with
      | mk s₁ built =>
          rw [hbuild] at hkeeps hchain
          cases built with
          | none =>
              rw [getOrBuildChain, hget, hbuild]
              exact ⟨hkeeps, by simp⟩
          | some chain =>
              obtain ⟨chains, hbuilt, hfiled⟩ : ∃ chains, getOrBuildChain decrypt env s cred role =
                  ({ s₁ with chains := chains }, some chain) ∧
                  chains.All fun k chain => ∀ e ∈ chain, Models s₁.rows k.1 k.2.2 e :=
                ⟨_, getOrBuildChain_built decrypt hget hbuild,
                  hkeeps.filed.chains.put _ (hchain chain rfl)⟩
              rw [hbuilt]
              refine ⟨hkeeps.withChains hfiled, ?_⟩
              intro chain' hchain'
              cases hchain'
              exact hchain chain rfl

theorem planCall_keeps {s : MeteredCalls B} (h : FiledFromRows s.byok) (q : LlmRequest) :
    FiledFromRows (planCall decrypt s q).1 ∧
    ∀ plan, (planCall decrypt s q).2 = some plan →
      ∀ e ∈ plan.chain, Models (planCall decrypt s q).1.rows q.tenantId plan.role e := by
  obtain ⟨hkeeps, hcred⟩ := resolve_keeps decrypt h q.env q.tenantId .llm
  rw [planCall]
  cases hres : resolve decrypt q.env s.byok q.tenantId .llm with
  | mk byok found =>
      rw [hres] at hkeeps hcred
      cases found with
      | none => exact ⟨hkeeps.filed, by simp⟩
      | some cred =>
          obtain ⟨hnext, hchain⟩ := getOrBuildChain_keeps decrypt hkeeps.filed q.env
            (hkeeps.describes _ _ (hcred cred rfl))
            (applyCostCeiling (gateEnv s q cred) cred q.role)
          simp only
          cases hget : getOrBuildChain decrypt q.env byok cred
              (applyCostCeiling (gateEnv s q cred) cred q.role) with
          | mk byok' chain =>
              rw [hget] at hnext hchain
              cases chain with
              | none => exact ⟨hnext.filed, by simp⟩
              | some chain =>
                  refine ⟨hnext.filed, ?_⟩
                  intro plan hplan
                  cases hplan
                  exact hchain chain rfl

variable {decrypt}

theorem meteredCall_byok (s : MeteredCalls B) (q : LlmRequest) :
    (meteredCall decrypt s q).byok = (planCall decrypt s q).1 := by
  rw [meteredCall]
  cases planCall decrypt s q with
  | mk byok found =>
      cases found with
      | none => rfl
      | some plan =>
          simp only
          split <;> rfl

theorem defaultAtCeiling_of_filed {s : MeteredCalls B} (h : FiledFromRows s.byok)
    (q : LlmRequest) : DefaultAtCeiling decrypt s q := by
  intro plan hplan cap hcap hread hreached
  have hrole : plan.role = "default" := by
    rw [planCall_role hplan]
    exact applyCostCeiling_reached rfl hcap (by rw [hread]; exact hreached)
  refine ⟨hrole, ?_⟩
  intro e he
  obtain ⟨r, hr, hid, htenant, hprovider, hmodel⟩ := (planCall_keeps decrypt h q).2 plan hplan e he
  refine ⟨r, hr, hid, htenant, hprovider, ?_⟩
  intro hnone
  rw [hmodel, hrole]
  exact modelForRole_of_lookup_none hnone

end Models

end Calls

/-- Nothing charged yet in this run; the counters may hold what was charged before. -/
def uncharged {B : Type} (byok : Byok B) (counters : SpendCounters) : MeteredCalls B :=
  ⟨byok, counters, []⟩

/-- While no settings change, no call is charged under a ceiling that the recorded spend
has reached, and at the ceiling the default model is used. -/
theorem role_ceiling_kept {B : Type} (decrypt : String → Provider → Purpose → B → Option String)
    (byok : Byok B) (counters : SpendCounters) (hfiled : FiledFromRows byok)
    (run : List LlmRequest) :
    Always (meteredCall decrypt) WithinCeiling (uncharged byok counters) run ∧
    AllSteps (meteredCall decrypt) (DefaultAtCeiling decrypt) (uncharged byok counters) run := by
  have hinv : Always (meteredCall decrypt)
      (fun s => (Recorded s ∧ WithinCeiling s) ∧ FiledFromRows s.byok)
      (uncharged byok counters) run := by
    apply always_of_step
    · intro s q hs
      refine ⟨⟨recorded_step hs.1.1 q, withinCeiling_step hs.1.1 hs.1.2 q⟩, ?_⟩
      rw [meteredCall_byok]
      exact (planCall_keeps decrypt hs.2 q).1
    · refine ⟨⟨fun k => Nat.zero_le _, ?_⟩, hfiled⟩
      intro k earlier b later hsplit
      cases earlier <;> cases hsplit
  constructor
  · exact hinv.mono fun s hs => hs.1.2
  · have hall := (allSteps_true (uncharged byok counters) run).and_always hinv
    exact hall.mono fun s q hs => defaultAtCeiling_of_filed hs.1.2 q

section Sample

/-- An `eval` override with a ceiling of one cent, and another credential behind it. -/
def ceilingRows : CredentialTable String where
  rows :=
    [{ id := "cred-1", tenantId := "acme", provider := .openai, purpose := .llm
       blob := "sk-openai", baseUrl := none, defaultModel := some "gpt-4o-mini"
       defaultEmbedModel := none, roleModels := [("eval", "gpt-4.1-mini")]
       failoverChain := ["cred-2"], roleCostLimits := [("eval", 1)], status := .active
       createdAt := 1, updatedAt := 1 },
     { id := "cred-2", tenantId := "acme", provider := .anthropic, purpose := .llm
       blob := "sk-anthropic", baseUrl := none, defaultModel := none
       defaultEmbedModel := none, roleModels := [("eval", "claude-haiku-4-5")]
       failoverChain := [], roleCostLimits := [], status := .active
       createdAt := 0, updatedAt := 0 }]
  unique := by decide

def ceilingByok : Byok String :=
  ⟨["acme"], ceilingRows, .empty, .empty, .empty⟩

def evalCall (tokensIn : Nat) (outcomes : List CallOutcome) : LlmRequest where
  tenantId := "acme"
  role := "eval"
  month := "2026-05"
  env := ⟨0, false, fun _ => false, fun _ => true, none, outcomes⟩
  usage := some ⟨tokensIn, 0⟩
  readFails := false
  writeFails := false

/-- Nine tenths of a cent each. -/
def smallCalls : List LlmRequest :=
  List.replicate 3 (evalCall 22500 [.success])

/-- The primary is down, and its fallback answers for eighty cents each. -/
def failedOverCalls : List LlmRequest :=
  List.replicate 3 (evalCall 1000000 [.transientError, .success])

/-- The calls a credential was resolved for that ran under the role. -/
def roleCalls (k : SpendKey) (booked : List Booking) : List Booking :=
  booked.filter fun b => { b.key with credentialId := b.resolvedId } = k

/-- In all, less than the ceiling and one call. -/
def CostBelow (cap : Nat) (calls : List Booking) : Prop :=
  ∃ b ∈ calls, exactCost calls < cap * million + b.rate.exactCost b.usage

instance (cap : Nat) (calls : List Booking) : Decidable (CostBelow cap calls) :=
  inferInstanceAs (Decidable (∃ b ∈ calls, _))

/-- Rounding hides the small calls from the ceiling, and failing over the large ones. -/
theorem ceiling_missed :
    ¬ CostBelow 1 (roleCalls ⟨"acme", "cred-1", "eval", "2026-05"⟩
      (exec (meteredCall plainDecrypt) (uncharged ceilingByok .empty) smallCalls).booked) ∧
    ¬ CostBelow 1 (roleCalls ⟨"acme", "cred-1", "eval", "2026-05"⟩
      (exec (meteredCall plainDecrypt) (uncharged ceilingByok .empty)
        failedOverCalls).booked) := by
  decide +kernel

theorem role_ceiling_kept_small_calls :
    Always (meteredCall plainDecrypt) WithinCeiling (uncharged ceilingByok .empty)
      smallCalls ∧
    AllSteps (meteredCall plainDecrypt) (DefaultAtCeiling plainDecrypt)
      (uncharged ceilingByok .empty) smallCalls :=
  role_ceiling_kept plainDecrypt ceilingByok .empty (filedFromRows_empty rfl rfl) smallCalls

end Sample

end Engramia.Credentials
