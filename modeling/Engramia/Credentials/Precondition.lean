import Engramia.Credentials.Slots
import Engramia.Library.Run
import Engramia.Library.Versions
import Engramia.Library.Whitespace

/-!
The three sub-resource endpoints with their mandatory `If-Match`. A request
reads the row, checks the header against it, writes under the precondition and,
when nothing was written, looks whether the row is there at all; other requests
and any other statement may come between.

`fromisoformat` is the standard library's parser.
-/
namespace Engramia.Credentials

open Engramia.Library

/-- In microseconds; a time without a zone equals no time of a row. -/
inductive Datetime where
  | aware (micros : Int)
  | naive (micros : Int)
deriving DecidableEq, Repr

/-- The header without the space around it and without its quotes. -/
def rawIfMatch (header : String) : String :=
  String.ofList (stripChars (· = '"') (stripChars isspace header.toList))

inductive SubResource where
  | roleModels (models : List (String × String))
  | failoverChain (ids : List String)
  | roleCostLimits (limits : List (String × Nat))
deriving DecidableEq

structure SubResourcePatch where
  tenantId : String
  id : String
  resource : SubResource
  header : Option String
deriving DecidableEq

inductive PatchPhase (B : Type) where
  | idle
  | checking (req : SubResourcePatch) (existing : StoredCredential B) (fallbacks : List String)
  | ready (req : SubResourcePatch) (etag : Int)
  | probing (req : SubResourcePatch)
  | answered (status : Nat)
deriving DecidableEq

abbrev CredentialVersions (B : Type) :=
  Versioned (fun r : StoredCredential B => r.id)

structure PatchRace (B θ : Type) where
  store : CredentialVersions B
  client : θ → PatchPhase B

inductive PatchStep (B θ : Type) where
  | read (t : θ) (req : SubResourcePatch)
  | checkFallback (t : θ)
  | gate (t : θ) (entitled : Bool)
  | update (t : θ) (now : Int)
  | probe (t : θ)
  /-- Any other statement, by the table it leaves. -/
  | other (rows : CredentialTable B)

def SubResource.fields : SubResource → PatchFields
  | .roleModels models => ⟨none, none, none, some models, none, none⟩
  | .failoverChain ids => ⟨none, none, none, none, some ids, none⟩
  | .roleCostLimits limits => ⟨none, none, none, none, none, some limits⟩

def SubResource.isEmpty : SubResource → Bool
  | .roleModels models => models.isEmpty
  | .failoverChain ids => ids.isEmpty
  | .roleCostLimits limits => limits.isEmpty

/-- The ids that must be other active credentials of the tenant. -/
def SubResource.fallbacks : SubResource → List String
  | .failoverChain ids => ids
  | _ => []

section Phases
variable {B : Type} (fromisoformat : String → Option Datetime)

/-- `_parse_if_match`; what cannot be parsed becomes the epoch. -/
def parseIfMatch (header : Option String) : Option Datetime :=
  match header with
  | none => none
  | some text =>
      if text = "" then none else some ((fromisoformat (rawIfMatch text)).getD (.aware 0))

/-- `_require_if_match`: the time to write under, or the status of the refusal. -/
def requireIfMatch (header : Option String) (current : StoredCredential B) : Except Nat Int :=
  match parseIfMatch fromisoformat header with
  | none => .error 428
  | some parsed => if parsed = .aware current.updatedAt then .ok current.updatedAt else .error 412

def afterRead (req : SubResourcePatch) : Option (StoredCredential B) → PatchPhase B
  | none => .answered 404
  | some existing =>
      if req.id ∈ req.resource.fallbacks then .answered 422
      else .checking req existing req.resource.fallbacks

/-- The next phase of a request that looks at its next fallback. -/
def afterFallback (rows : CredentialTable B) : PatchPhase B → PatchPhase B
  | .checking req existing (id :: rest) =>
      match getById rows req.tenantId id with
      | none => .answered 422
      | some fallback =>
          if fallback.status = .active then .checking req existing rest else .answered 422
  | phase => phase

/-- The tier gate, then the header. -/
def afterGate (entitled : Bool) : PatchPhase B → PatchPhase B
  | .checking req existing [] =>
      if ¬ req.resource.isEmpty ∧ ¬ entitled then .answered 402
      else
        match requireIfMatch fromisoformat req.header existing with
        | .error status => .answered status
        | .ok etag => .ready req etag
  | phase => phase

def afterProbe (rows : CredentialTable B) : PatchPhase B → PatchPhase B
  | .probing req =>
      if (getById rows req.tenantId req.id).isSome then .answered 412 else .answered 404
  | phase => phase

/-- The header says the `updated_at` of this version. -/
def Names (header : Option String) (v : StoredCredential B) : Prop :=
  ∃ text, header = some text ∧ fromisoformat (rawIfMatch text) = some (.aware v.updatedAt)

/-- What a request may become without a write: ready with the time its header says, but
not answered with success. -/
structure Advances (phase phase' : PatchPhase B) : Prop where
  ready : ∀ req etag, phase' = .ready req etag → phase = .ready req etag ∨
    parseIfMatch fromisoformat req.header = some (.aware etag)
  refused : phase' = .answered 200 → phase = .answered 200

theorem Advances.refl (phase : PatchPhase B) : Advances fromisoformat phase phase :=
  ⟨fun _ _ => .inl, id⟩

theorem advances_answered (phase : PatchPhase B) {status : Nat} (h : status ≠ 200) :
    Advances fromisoformat phase (.answered status) where
  ready _ _ hready := by cases hready
  refused hok := by
    cases hok
    exact absurd rfl h

theorem advances_checking (phase : PatchPhase B) (req : SubResourcePatch)
    (existing : StoredCredential B) (fallbacks : List String) :
    Advances fromisoformat phase (.checking req existing fallbacks) where
  ready _ _ hready := by cases hready
  refused hok := by cases hok

theorem advances_read (phase : PatchPhase B) (req : SubResourcePatch)
    (found : Option (StoredCredential B)) :
    Advances fromisoformat phase (afterRead req found) := by
  cases found with
  | none => exact advances_answered fromisoformat phase (by decide)
  | some existing =>
      rw [afterRead]
      split
      · exact advances_answered fromisoformat phase (by decide)
      · exact advances_checking fromisoformat phase req existing _

theorem advances_fallback (rows : CredentialTable B) (phase : PatchPhase B) :
    Advances fromisoformat phase (afterFallback rows phase) := by
  rw [afterFallback.eq_def]
  split
  · rename_i req existing id rest
    cases getById rows req.tenantId id with
    | none => exact advances_answered fromisoformat _ (by decide)
    | some fallback =>
        simp only
        split
        · exact advances_checking fromisoformat _ req existing rest
        · exact advances_answered fromisoformat _ (by decide)
  · exact .refl fromisoformat _

variable {fromisoformat}

theorem requireIfMatch_ok {header : Option String} {current : StoredCredential B} {etag : Int}
    (h : requireIfMatch fromisoformat header current = .ok etag) :
    parseIfMatch fromisoformat header = some (.aware etag) := by
  rw [requireIfMatch] at h
  cases hparse : parseIfMatch fromisoformat header with
  | none =>
      rw [hparse] at h
      cases h
  | some parsed =>
      simp only [hparse] at h
      split at h
      · rename_i hsame
        cases h
        rw [hsame]
      · cases h

theorem requireIfMatch_error {header : Option String} {current : StoredCredential B}
    {status : Nat} (h : requireIfMatch fromisoformat header current = .error status) :
    status ≠ 200 := by
  rw [requireIfMatch] at h
  split at h
  · cases h
    decide
  · split at h
    · cases h
    · cases h
      decide

variable (fromisoformat) in
theorem advances_gate (entitled : Bool) (phase : PatchPhase B) :
    Advances fromisoformat phase (afterGate fromisoformat entitled phase) := by
  rw [afterGate.eq_def]
  split
  · rename_i req existing
    split
    · exact advances_answered fromisoformat _ (by decide)
    · cases hrequire : requireIfMatch fromisoformat req.header existing with
      | error status => exact advances_answered fromisoformat _ (requireIfMatch_error hrequire)
      | ok etag =>
          constructor
          · intro req' etag' hready
            cases hready
            exact .inr (requireIfMatch_ok hrequire)
          · intro hok
            cases hok
  · exact .refl fromisoformat _

variable (fromisoformat) in
theorem advances_probe (rows : CredentialTable B) (phase : PatchPhase B) :
    Advances fromisoformat phase (afterProbe rows phase) := by
  rw [afterProbe.eq_def]
  split
  · split
    · exact advances_answered fromisoformat _ (by decide)
    · exact advances_answered fromisoformat _ (by decide)
  · exact .refl fromisoformat _

theorem names_of_parse {header : Option String} {v : StoredCredential B}
    (h : parseIfMatch fromisoformat header = some (.aware v.updatedAt)) (hv : v.updatedAt ≠ 0) :
    Names fromisoformat header v := by
  cases header with
  | none => cases h
  | some text =>
      refine ⟨text, rfl, ?_⟩
      rw [parseIfMatch] at h
      split at h
      · cases h
      · cases hiso : fromisoformat (rawIfMatch text) with
        | none =>
            rw [hiso, Option.getD_none, Option.some.injEq, Datetime.aware.injEq] at h
            exact absurd h.symm hv
        | some parsed =>
            rw [hiso, Option.getD_some] at h
            exact h

theorem patch_updated {rows rows' : CredentialTable B} {tenantId id : String}
    {fields : PatchFields} {etag now : Int}
    (h : patch rows tenantId id fields (some etag) now = (rows', .updated)) :
    ∃ r, rows.row? id = some r ∧ r.tenantId = tenantId ∧ r.updatedAt = etag ∧
      ∀ k, rows'.row? k = if k = id then some (fields.set now r) else rows.row? k := by
  rw [patch] at h
  split at h
  · cases h
  · split at h
    · rename_i hany
      cases h
      obtain ⟨r, hr, hhit⟩ := List.any_eq_true.mp hany
      have hfound := of_decide_eq_true hhit
      have hrow : rows.row? id = some r := Table.row?_eq_some.mpr ⟨hr, hfound.1⟩
      refine ⟨r, hrow, hfound.2.1, hfound.2.2 etag rfl, ?_⟩
      intro k
      rw [Table.row?_update]
      by_cases hk : k = id
      · rw [if_pos hk, hk, hrow, Option.map_some, if_pos hhit]
      · rw [if_neg hk]
        cases hother : rows.row? k with
        | none => rfl
        | some r' =>
            have hmiss : ¬ r'.id = id := by
              rw [(Table.row?_eq_some.mp hother).2]
              exact hk
            simp [hmiss]
    · split at h
      · cases h
      · split at h <;> cases h

end Phases

section Steps
variable {B θ : Type} [DecidableEq B] [DecidableEq θ] (fromisoformat : String → Option Datetime)

def PatchRace.goTo (s : PatchRace B θ) (t : θ) (phase : PatchPhase B) : PatchRace B θ :=
  { s with client := Function.update s.client t phase }

/-- The `UPDATE` under the precondition. -/
def PatchRace.update (s : PatchRace B θ) (t : θ) (req : SubResourcePatch) (etag now : Int) :
    PatchRace B θ :=
  match patch s.store.table req.tenantId req.id req.resource.fields (some etag) now with
  | (rows, .updated) => { s with store := s.store.commit rows }.goTo t (.answered 200)
  | _ => s.goTo t (.probing req)

def patchRaceStep (s : PatchRace B θ) : PatchStep B θ → PatchRace B θ
  | .read t req => s.goTo t (afterRead req (getById s.store.table req.tenantId req.id))
  | .checkFallback t => s.goTo t (afterFallback s.store.table (s.client t))
  | .gate t entitled => s.goTo t (afterGate fromisoformat entitled (s.client t))
  | .update t now =>
      match s.client t with
      | .ready req etag => s.update t req etag now
      | _ => s
  | .probe t => s.goTo t (afterProbe s.store.table (s.client t))
  | .other rows => { s with store := s.store.commit rows }

def unpatched : PatchRace B θ := ⟨.empty, fun _ => .idle⟩

/-- The request that a step answers with `UPDATED`, and the time its write has. -/
def updatedBy (s : PatchRace B θ) : PatchStep B θ → Option (SubResourcePatch × Int)
  | .update t now =>
      match s.client t with
      | .ready req etag =>
          if (patch s.store.table req.tenantId req.id req.resource.fields (some etag) now).2 =
            .updated then some (req, now) else none
      | _ => none
  | _ => none

/-- Every row a statement writes gets an `updated_at` that the row never had, after the
epoch. -/
def FreshWrite (s : PatchRace B θ) (a : PatchStep B θ) : Prop :=
  ∀ r ∈ (patchRaceStep fromisoformat s a).store.table.rows, s.store.table.row? r.id = some r ∨
    r.updatedAt ≠ 0 ∧ ∀ v ∈ s.store.versions r.id, v.updatedAt ≠ r.updatedAt

instance (s : PatchRace B θ) (a : PatchStep B θ) : Decidable (FreshWrite fromisoformat s a) :=
  inferInstanceAs (Decidable (∀ r ∈ (patchRaceStep fromisoformat s a).store.table.rows, _))

/-- The version a request names is the newest one of its row, no other version has that
name, and the write is made to it and to no other row. -/
structure AppliedToNamed (s s' : PatchRace B θ) (req : SubResourcePatch) (now : Int)
    (v : StoredCredential B) : Prop where
  newest : (s.store.versions req.id).getLast? = some v
  tenant : v.tenantId = req.tenantId
  named : Names fromisoformat req.header v
  only : ∀ v' ∈ s.store.versions req.id, Names fromisoformat req.header v' → v' = v
  written : ∀ k, s'.store.table.row? k =
    if k = req.id then some (req.resource.fields.set now v) else s.store.table.row? k

def UpdatesNamed (s : PatchRace B θ) (a : PatchStep B θ) : Prop :=
  ∀ x ∈ updatedBy s a,
    ∃ v, AppliedToNamed fromisoformat s (patchRaceStep fromisoformat s a) x.1 x.2 v

/-- A request that is not answered with `UPDATED` leaves the table as it is. -/
def RefusalsChangeNothing (s : PatchRace B θ) (a : PatchStep B θ) : Prop :=
  (∀ rows, a ≠ .other rows) → updatedBy s a = none →
    (patchRaceStep fromisoformat s a).store = s.store ∧
    ∀ t, (patchRaceStep fromisoformat s a).client t = .answered 200 →
      s.client t = .answered 200

variable {fromisoformat} {s : PatchRace B θ}

/-- What is known of a state: the versions, and the headers of the requests that will write. -/
structure Guarded (fromisoformat : String → Option Datetime) (s : PatchRace B θ) : Prop where
  tracked : s.store.Tracked StoredCredential.updatedAt
  after_epoch : ∀ id, ∀ v ∈ s.store.versions id, v.updatedAt ≠ 0
  header : ∀ t req etag, s.client t = .ready req etag →
    parseIfMatch fromisoformat req.header = some (.aware etag)

omit [DecidableEq B] [DecidableEq θ] in
theorem guarded_unpatched : Guarded fromisoformat (unpatched : PatchRace B θ) where
  tracked := Versioned.tracked_empty
  after_epoch id v hv := by cases hv
  header t req etag h := by cases h

omit [DecidableEq B] in
theorem Guarded.goTo (h : Guarded fromisoformat s) (t : θ) {phase : PatchPhase B}
    (hphase : ∀ req etag, phase = .ready req etag → s.client t = .ready req etag ∨
      parseIfMatch fromisoformat req.header = some (.aware etag)) :
    Guarded fromisoformat (s.goTo t phase) where
  tracked := h.tracked
  after_epoch := h.after_epoch
  header t' req etag hready := by
    change Function.update s.client t phase t' = _ at hready
    by_cases ht : t' = t
    · rw [ht, Function.update_self] at hready
      cases hphase req etag hready with
      | inl hold => exact h.header t req etag hold
      | inr hnew => exact hnew
    · rw [Function.update_of_ne ht] at hready
      exact h.header t' req etag hready

omit [DecidableEq θ] in
theorem Guarded.commit (h : Guarded fromisoformat s) {rows : CredentialTable B}
    (hfresh : ∀ r ∈ rows.rows, s.store.table.row? r.id = some r ∨
      r.updatedAt ≠ 0 ∧ ∀ v ∈ s.store.versions r.id, v.updatedAt ≠ r.updatedAt) :
    Guarded fromisoformat { s with store := s.store.commit rows } where
  tracked := h.tracked.commit fun r hr => (hfresh r hr).imp id And.right
  after_epoch := Versioned.all_commit h.after_epoch fun r hr => (hfresh r hr).imp id And.left
  header := h.header

omit [DecidableEq B] in
theorem refused_goTo {t t' : θ} {phase : PatchPhase B}
    (hphase : phase = .answered 200 → s.client t = .answered 200)
    (h : (s.goTo t phase).client t' = .answered 200) : s.client t' = .answered 200 := by
  change Function.update s.client t phase t' = _ at h
  by_cases ht : t' = t
  · rw [ht, Function.update_self] at h
    rw [ht]
    exact hphase h
  · rw [Function.update_of_ne ht] at h
    exact h

/-- The update of a request that is ready writes, or leaves the table alone and goes on to
look for the row. -/
theorem update_cases (s : PatchRace B θ) (t : θ) (req : SubResourcePatch) (etag now : Int) :
    (∃ rows, patch s.store.table req.tenantId req.id req.resource.fields (some etag) now =
        (rows, .updated) ∧
      s.update t req etag now =
        { s with store := s.store.commit rows }.goTo t (.answered 200)) ∨
    (patch s.store.table req.tenantId req.id req.resource.fields (some etag) now).2 ≠ .updated ∧
      s.update t req etag now = s.goTo t (.probing req) := by
  rw [PatchRace.update]
  cases hpatch : patch s.store.table req.tenantId req.id req.resource.fields (some etag) now with
  | mk rows outcome =>
      cases outcome with
      | updated => exact .inl ⟨rows, rfl, rfl⟩
      | notFound => exact .inr ⟨by simp, rfl⟩
      | emptyBody => exact .inr ⟨by simp, rfl⟩
      | preconditionFailed => exact .inr ⟨by simp, rfl⟩

theorem Guarded.step (h : Guarded fromisoformat s) {a : PatchStep B θ}
    (hfresh : FreshWrite fromisoformat s a) :
    Guarded fromisoformat (patchRaceStep fromisoformat s a) := by
  cases a with
  | read t req => exact h.goTo t (advances_read fromisoformat _ req _).ready
  | checkFallback t => exact h.goTo t (advances_fallback fromisoformat _ _).ready
  | gate t entitled => exact h.goTo t (advances_gate fromisoformat entitled _).ready
  | probe t => exact h.goTo t (advances_probe fromisoformat _ _).ready
  | other rows => exact h.commit hfresh
  | update t now =>
      rw [FreshWrite] at hfresh
      rw [patchRaceStep] at hfresh ⊢
      cases hclient : s.client t with
      | ready req etag =>
          simp only [hclient] at hfresh ⊢
          cases update_cases s t req etag now with
          | inl hupdated =>
              obtain ⟨rows, -, heq⟩ := hupdated
              rw [heq] at hfresh ⊢
              exact (h.commit hfresh).goTo t fun _ _ hready => absurd hready (by simp)
          | inr hrefused =>
              rw [hrefused.2]
              exact h.goTo t fun _ _ hready => absurd hready (by simp)
      | _ => exact h

theorem updatesNamed_of_guarded (h : Guarded fromisoformat s) (a : PatchStep B θ) :
    UpdatesNamed fromisoformat s a := by
  intro x hx
  cases a with
  | update t now =>
      rw [updatedBy] at hx
      rw [patchRaceStep]
      cases hclient : s.client t with
      | ready req etag =>
          simp only [hclient] at hx ⊢
          cases update_cases s t req etag now with
          | inr hrefused =>
              rw [if_neg hrefused.1] at hx
              cases hx
          | inl hupdated =>
              obtain ⟨rows, hpatch, heq⟩ := hupdated
              rw [hpatch, if_pos rfl] at hx
              cases hx
              obtain ⟨r, hrow, htenant, hetag, hwritten⟩ := patch_updated hpatch
              obtain ⟨hr, hid⟩ := Table.row?_eq_some.mp hrow
              have hnewest := h.tracked.current r hr
              have hnamed : Names fromisoformat req.header r := by
                have hheader := h.header t req etag hclient
                rw [← hetag] at hheader
                exact names_of_parse hheader
                  (h.after_epoch r.id r (List.mem_of_getLast? hnewest))
              rw [heq]
              refine ⟨r, ?_⟩
              exact
                { newest := by rw [← hid]; exact hnewest
                  tenant := htenant
                  named := hnamed
                  only := by
                    intro v hv hname
                    rw [← hid] at hv
                    apply h.tracked.only hr hv
                    obtain ⟨text, htext, hiso⟩ := hname
                    obtain ⟨text', htext', hiso'⟩ := hnamed
                    rw [htext, Option.some.injEq] at htext'
                    rw [← htext', hiso, Option.some.injEq, Datetime.aware.injEq] at hiso'
                    exact hiso'
                  written := hwritten }
      | _ =>
          simp only [hclient] at hx
          cases hx
  | _ => cases hx

theorem refusalsChangeNothing (s : PatchRace B θ) (a : PatchStep B θ) :
    RefusalsChangeNothing fromisoformat s a := by
  intro hother hnone
  cases a with
  | read t req => exact ⟨rfl, fun t' => refused_goTo (advances_read fromisoformat _ req _).refused⟩
  | checkFallback t =>
      exact ⟨rfl, fun t' => refused_goTo (advances_fallback fromisoformat _ _).refused⟩
  | gate t entitled =>
      exact ⟨rfl, fun t' => refused_goTo (advances_gate fromisoformat entitled _).refused⟩
  | probe t => exact ⟨rfl, fun t' => refused_goTo (advances_probe fromisoformat _ _).refused⟩
  | other rows => exact absurd rfl (hother rows)
  | update t now =>
      rw [updatedBy] at hnone
      rw [patchRaceStep]
      cases hclient : s.client t with
      | ready req etag =>
          simp only [hclient] at hnone ⊢
          cases update_cases s t req etag now with
          | inl hupdated =>
              obtain ⟨rows, hpatch, -⟩ := hupdated
              rw [hpatch, if_pos rfl] at hnone
              cases hnone
          | inr hrefused =>
              rw [hrefused.2]
              exact ⟨rfl, fun t' => refused_goTo fun hok => absurd hok (by simp)⟩
      | _ => exact ⟨rfl, fun _ hok => hok⟩

end Steps

/-- While every write gives its row a new `updated_at`, a patch that returns `UPDATED` was
made to the version its `If-Match` names, the newest one; any other leaves the table alone. -/
theorem no_lost_update {B θ : Type} [DecidableEq B] [DecidableEq θ]
    (fromisoformat : String → Option Datetime) (run : List (PatchStep B θ))
    (hfresh : AllSteps (patchRaceStep fromisoformat) (FreshWrite fromisoformat) unpatched run) :
    AllSteps (patchRaceStep fromisoformat)
      (fun s a => UpdatesNamed fromisoformat s a ∧ RefusalsChangeNothing fromisoformat s a)
      unpatched run := by
  have hguarded : Always (patchRaceStep fromisoformat) (Guarded fromisoformat) unpatched run :=
    always_of_allSteps (fun _ _ h hg => h.step hg) guarded_unpatched hfresh
  exact (hfresh.and_always hguarded).mono fun s a hs =>
    ⟨updatesNamed_of_guarded hs.1 a, refusalsChangeNothing s a⟩

section Sample

def patchedRow (updatedAt : Int) (models : List (String × String)) : StoredCredential String where
  id := "cred-1"
  tenantId := "acme"
  provider := .openai
  purpose := .llm
  blob := "sk-openai"
  baseUrl := none
  defaultModel := none
  defaultEmbedModel := none
  roleModels := models
  failoverChain := []
  roleCostLimits := []
  status := .active
  createdAt := 0
  updatedAt := updatedAt

def sampleIso (text : String) : Option Datetime :=
  if text = "2026-05-01T12:00:00+00:00" then some (.aware 1777636800000000) else none

def evalPatch (model : String) : SubResourcePatch :=
  ⟨"acme", "cred-1", .roleModels [("eval", model)], some "\"2026-05-01T12:00:00+00:00\""⟩

/-- Two clients name the same version; the second one to write is refused. -/
def twoPatches : List (PatchStep String Bool) :=
  [.other ⟨[patchedRow 1777636800000000 []], List.nodup_singleton _⟩,
    .read true (evalPatch "gpt-4.1"), .read false (evalPatch "gpt-4.1-mini"),
    .gate true true, .gate false true, .update true 1777636800000001,
    .update false 1777636800000002, .probe false]

theorem no_lost_update_two :
    AllSteps (patchRaceStep sampleIso)
      (fun s a => UpdatesNamed sampleIso s a ∧ RefusalsChangeNothing sampleIso s a)
      unpatched twoPatches :=
  no_lost_update sampleIso twoPatches (by decide)

end Sample

end Engramia.Credentials
