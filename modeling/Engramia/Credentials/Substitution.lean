import Engramia.Credentials.Coherence
import Engramia.Credentials.Lifecycle
import Engramia.Credentials.Sealing

/-!
The resolver on a database that others can write. Rows and their columns can be moved, copied and
rewritten at will between any two requests; what cannot be done is to make up columns that open.
Whatever was done, a key that comes out was posted by the tenant it is resolved for, for the
provider and the purpose of the row it comes from.
-/
namespace Engramia.Credentials
open Engramia.Library

/-- A key that a backend has sealed, with the slot it was sealed for. -/
structure Sealed where
  tenantId : String
  provider : Provider
  purpose : Purpose
  key : String
  envelope : Envelope

/-- The table, the resolver's cache, and what has been sealed and posted so far. -/
structure Resolver where
  rows : CredentialTable Envelope
  cache : OrderedDict (String × Purpose) (Int × TenantCredential)
  sealed : List Sealed
  posted : List (String × Provider × Purpose × String)

structure ResolveEnv where
  now : Int
  storeDown : Bool
  vaultUp : Bool

inductive ResolverStep where
  /-- `POST /v1/credentials`; the upsert comes with the key in the clear. -/
  | create (req : CreateRequest String) (up : Bool) (backend : String) (draw : Bytes)
  | revalidate (tenantId id newId : String) (accepted : Bool) (env : ResolveEnv)
  | revoke (tenantId id : String) (now : Int)
  | patch (tenantId id : String) (fields : PatchFields) (ifMatch : Option Int) (now : Int)
  /-- A row of `credentials migrate-to-vault`, or of its reverse. -/
  | migrate (id source target : String) (up : Bool) (draw : Bytes) (now : Int)
  | tamper (rows : CredentialTable Envelope)
  | resolve (env : ResolveEnv) (tenantId : String) (purpose : Purpose)
  | resolveById (env : ResolveEnv) (tenantId id : String)
  | invalidate (tenantId : String)

section Definitions
variable (backends : Backends)

def Upsert.withBlob {B C : Type} (u : Upsert B) (blob : C) : Upsert C where
  tenantId := u.tenantId
  provider := u.provider
  purpose := u.purpose
  blob := blob
  baseUrl := u.baseUrl
  defaultModel := u.defaultModel
  defaultEmbedModel := u.defaultEmbedModel
  newId := u.newId
  now := u.now

/-- The slot and the key of a post. -/
def Upsert.posted (u : Upsert String) : String × Provider × Purpose × String :=
  (u.tenantId, u.provider, u.purpose, u.blob)

def Upsert.sealedAs (u : Upsert String) (envelope : Envelope) : Sealed :=
  ⟨u.tenantId, u.provider, u.purpose, u.blob, envelope⟩

def Backends.encryptFor (up : Bool) (backend : String) (draw : Bytes) (u : Upsert String) :
    Except BackendError Envelope :=
  backends.encrypt up backend draw u.tenantId u.provider u.purpose u.blob

def StoredCredential.reseal (now : Int) (envelope : Envelope) (r : StoredCredential Envelope) :
    StoredCredential Envelope :=
  { r with blob := envelope, updatedAt := now }

theorem StoredCredential.reseal_id (now : Int) (envelope : Envelope)
    (r : StoredCredential Envelope) : (r.reseal now envelope).id = r.id := rfl

def Backends.decryptOf (up : Bool) (r : StoredCredential Envelope) : Except BackendError String :=
  backends.decrypt up r.tenantId r.provider r.purpose r.blob

def Backends.isEmpty : Bool :=
  backends.localBackend.isNone && backends.vaultBackend.isNone

def Resolver.drop (s : Resolver) (tenantId : String) : Resolver :=
  { s with cache := s.cache.discard fun k => k.1 = tenantId }

def Resolver.create (s : Resolver) (req : CreateRequest String) (up : Bool) (backend : String)
    (draw : Bytes) : Resolver :=
  if ¬ req.accepted then s
  else
    match backends.encryptFor up backend draw req.upsert with
    | .error _ => s
    | .ok envelope =>
        match upsert s.rows (req.upsert.withBlob envelope) with
        | none => s
        | some (rows, id) =>
            Resolver.drop
              { rows := markValidated rows id req.validatedAt
                cache := s.cache
                sealed := req.upsert.sealedAs envelope :: s.sealed
                posted := req.upsert.posted :: s.posted }
              req.upsert.tenantId

/-- `POST /v1/credentials/{id}/validate`, in one go. -/
def Resolver.revalidate (s : Resolver) (tenantId id newId : String) (accepted : Bool)
    (env : ResolveEnv) : Resolver :=
  match getById s.rows tenantId id with
  | none => s
  | some row =>
      match backends.decryptOf env.vaultUp row with
      | .error _ => { s with rows := markInvalid s.rows id env.now }
      | .ok _ =>
          if ¬ accepted then { s with rows := markInvalid s.rows id env.now }
          else if row.status = .active then { s with rows := markValidated s.rows id env.now }
          else
            match upsert (markValidated s.rows id env.now) (revival row newId env.now) with
            | none => s
            | some (rows, _) => { s with rows := rows }.drop tenantId

def Resolver.migrate (s : Resolver) (id source target : String) (up : Bool) (draw : Bytes)
    (now : Int) : Resolver :=
  match (s.rows.row? id).filter fun r => r.blob.backend = source with
  | none => s
  | some row =>
      match backends.decryptOf up row with
      | .error _ => s
      | .ok key =>
          match backends.encrypt up target draw row.tenantId row.provider row.purpose key with
          | .error _ => s
          | .ok envelope =>
              { s with
                rows := s.rows.update (fun r => r.id = id) (StoredCredential.reseal now envelope)
                  (StoredCredential.reseal_id now envelope)
                sealed := ⟨row.tenantId, row.provider, row.purpose, key, envelope⟩ :: s.sealed }

/-- The decryption in `resolve` and in `resolve_by_id`. Only a `DecryptionError` marks the row, and
what is neither that nor the vault's failure is raised. -/
def Resolver.decryptRow (s : Resolver) (env : ResolveEnv) (row : StoredCredential Envelope) :
    Resolver × Except BackendError (Option TenantCredential) :=
  match backends.decryptOf env.vaultUp row with
  | .error .decryptionError => ({ s with rows := markInvalid s.rows row.id env.now }, .ok none)
  | .error .vaultBackendError => (s, .ok none)
  | .error e => (s, .error e)
  | .ok key => (s, .ok (some (row.toTenantCredential key)))

def Resolver.resolve (s : Resolver) (env : ResolveEnv) (tenantId : String) (purpose : Purpose) :
    Resolver × Except BackendError (Option TenantCredential) :=
  if backends.isEmpty then (s, .ok none)
  else
    match cacheGet s.cache (tenantId, purpose) env.now with
    | (cache, some cred) => ({ s with cache := cache }, .ok (some cred))
    | (cache, none) =>
        let row := if env.storeDown then none else getActiveForPurpose s.rows tenantId purpose
        match row with
        | none => ({ s with cache := cache }, .ok none)
        | some row =>
            match Resolver.decryptRow backends { s with cache := cache } env row with
            | (s, .ok (some cred)) =>
                ({ s with
                  cache := s.cache.put resolverCacheMax (tenantId, purpose)
                    (env.now + cacheTtlMicros, cred) }, .ok (some cred))
            | (s, answer) => (s, answer)

def Resolver.resolveById (s : Resolver) (env : ResolveEnv) (tenantId id : String) :
    Resolver × Except BackendError (Option TenantCredential) :=
  if backends.isEmpty then (s, .ok none)
  else
    let row := if env.storeDown then none else getById s.rows tenantId id
    match row with
    | none => (s, .ok none)
    | some row =>
        if row.status = .active then Resolver.decryptRow backends s env row else (s, .ok none)

def resolverStep (s : Resolver) : ResolverStep → Resolver
  | .create req up backend draw => s.create backends req up backend draw
  | .revalidate tenantId id newId accepted env =>
      s.revalidate backends tenantId id newId accepted env
  | .revoke tenantId id now =>
      if s.rows.rows.any (revocable tenantId id) then
        { s with rows := Credentials.revoke s.rows tenantId id now }.drop tenantId
      else s
  | .patch tenantId id fields ifMatch now =>
      match Credentials.patch s.rows tenantId id fields ifMatch now with
      | (rows, .updated) => { s with rows := rows }.drop tenantId
      | _ => s
  | .migrate id source target up draw now => s.migrate backends id source target up draw now
  | .tamper rows => { s with rows := rows }
  | .resolve env tenantId purpose => (s.resolve backends env tenantId purpose).1
  | .resolveById env tenantId id => (s.resolveById backends env tenantId id).1
  | .invalidate tenantId => s.drop tenantId

/-- The credential a step answers with, and the tenant it is for. -/
def resolved (s : Resolver) : ResolverStep → Option (String × TenantCredential)
  | .resolve env tenantId purpose =>
      match (s.resolve backends env tenantId purpose).2 with
      | .ok (some cred) => some (tenantId, cred)
      | _ => none
  | .resolveById env tenantId id =>
      match (s.resolveById backends env tenantId id).2 with
      | .ok (some cred) => some (tenantId, cred)
      | _ => none
  | _ => none

def noRows : Resolver where
  rows := noCredentials
  cache := .empty
  sealed := []
  posted := []

/-- The columns were sealed by a backend. -/
def Known (s : Resolver) (envelope : Envelope) : Prop :=
  ∃ e ∈ s.sealed, envelope.SameSeal e.envelope

/-- The columns open for no slot. -/
def Dead (envelope : Envelope) : Prop :=
  ∀ up tenantId provider purpose key,
    backends.decrypt up tenantId provider purpose envelope ≠ .ok key

/-- Columns that open are not made up. -/
def ForgesNothing (s : Resolver) : ResolverStep → Prop
  | .tamper rows => ∀ r ∈ rows.rows, Known s r.blob ∨ Dead backends r.blob
  | _ => True

/-- The tenant has posted the key, for the provider and the purpose of the credential, with white
space at its ends perhaps. -/
def PostedBy (s : Resolver) (tenantId : String) (cred : TenantCredential) : Prop :=
  cred.tenantId = tenantId ∧ ∃ key, stripText key = cred.apiKey ∧
    (tenantId, cred.provider, cred.purpose, key) ∈ s.posted

theorem PostedBy.mono {s s' : Resolver} {tenantId : String} {cred : TenantCredential}
    (h : PostedBy s tenantId cred) (hposted : ∀ x ∈ s.posted, x ∈ s'.posted) :
    PostedBy s' tenantId cred := by
  obtain ⟨htenant, key, hkey, hmem⟩ := h
  exact ⟨htenant, key, hkey, hposted _ hmem⟩

/-- Everything sealed was posted for its slot, every row holds something sealed or nothing, and the
cache holds posted keys only. -/
structure OwnKeys (s : Resolver) : Prop where
  sealed : ∀ e ∈ s.sealed, (e.tenantId, e.provider, e.purpose, e.key) ∈ s.posted ∧
    ∃ up backend draw,
      backends.encrypt up backend draw e.tenantId e.provider e.purpose e.key = .ok e.envelope
  rows : ∀ r ∈ s.rows.rows, Known s r.blob ∨ Dead backends r.blob
  cache : s.cache.All fun k v => PostedBy s k.1 v.2

end Definitions

section Invariant
variable {backends : Backends} {s s' : Resolver} {rows : CredentialTable Envelope}
  {u : Upsert Envelope} {id : String}

theorem OwnKeys.opened (hbackends : backends.Authentic) (h : OwnKeys backends s)
    {row : StoredCredential Envelope} (hrow : row ∈ s.rows.rows) {up : Bool} {key : String}
    (hopen : backends.decryptOf up row = .ok key) :
    (row.tenantId, row.provider, row.purpose, key) ∈ s.posted := by
  cases h.rows row hrow with
  | inl hknown =>
      obtain ⟨e, he, hsame⟩ := hknown
      obtain ⟨hposted, up', backend, draw, hsealed⟩ := h.sealed e he
      obtain ⟨⟨htenant, hprovider, hpurpose⟩, hkey⟩ :=
        decrypt_sealed hbackends hsealed hsame hopen
      rw [htenant, hprovider, hpurpose, hkey]
      exact hposted
  | inr hdead => exact absurd hopen (hdead _ _ _ _ _)

theorem OwnKeys.ofRows (h : OwnKeys backends s)
    (hrows : ∀ r ∈ rows.rows, ∃ r' ∈ s.rows.rows, r.blob = r'.blob) :
    OwnKeys backends { s with rows := rows } where
  sealed := h.sealed
  rows := by
    intro r hr
    obtain ⟨r', hr', hblob⟩ := hrows r hr
    rw [hblob]
    exact h.rows r' hr'
  cache := h.cache

theorem OwnKeys.ofCache (h : OwnKeys backends s)
    {cache : OrderedDict (String × Purpose) (Int × TenantCredential)}
    (hcache : cache.All fun k v => PostedBy s k.1 v.2) :
    OwnKeys backends { s with cache := cache } where
  sealed := h.sealed
  rows := h.rows
  cache := hcache

theorem OwnKeys.drop (h : OwnKeys backends s) (tenantId : String) :
    OwnKeys backends (s.drop tenantId) :=
  h.ofCache (h.cache.discard _)

theorem blob_update (rows : CredentialTable Envelope) {p : StoredCredential Envelope → Bool}
    {f : StoredCredential Envelope → StoredCredential Envelope} (hid : ∀ r, (f r).id = r.id)
    (hblob : ∀ r, (f r).blob = r.blob) :
    ∀ r ∈ (rows.update p f hid).rows, ∃ r' ∈ rows.rows, r.blob = r'.blob := by
  intro r hr
  obtain ⟨r', hr', hupdated⟩ := List.mem_map.mp hr
  refine ⟨r', hr', ?_⟩
  rw [← hupdated]
  cases hp : p r' with
  | false => rfl
  | true => exact hblob r'

/-- After an upsert a row holds what an old row held, or what was written. -/
theorem blob_upsert {rows' : CredentialTable Envelope} (hup : upsert rows u = some (rows', id)) :
    ∀ r ∈ rows'.rows, (∃ r' ∈ rows.rows, r.blob = r'.blob) ∨ r.blob = u.blob := by
  intro r hr
  cases upsert_cases hup with
  | inl hreplaced =>
      obtain ⟨_, _, _, _, _, rfl⟩ := hreplaced
      obtain ⟨r', hr', hupdated⟩ := List.mem_map.mp hr
      cases hp : u.onSlot r' with
      | false =>
          simp only [hp] at hupdated
          exact .inl ⟨r', hr', congrArg StoredCredential.blob hupdated.symm⟩
      | true =>
          simp only [hp, if_true] at hupdated
          rw [← hupdated]
          exact .inr rfl
  | inr hinserted =>
      obtain ⟨_, _, hinsert⟩ := hinserted
      cases (Table.mem_insert hinsert).mp hr with
      | inl hold => exact .inl ⟨r, hold, rfl⟩
      | inr hnew => exact .inr (congrArg StoredCredential.blob hnew)

theorem OwnKeys.markInvalid (h : OwnKeys backends s) (id : String) (now : Int) :
    OwnKeys backends { s with rows := markInvalid s.rows id now } :=
  h.ofRows (blob_update _ _ fun _ => rfl)

theorem OwnKeys.markValidated (h : OwnKeys backends s) (id : String) (now : Int) :
    OwnKeys backends { s with rows := markValidated s.rows id now } :=
  h.ofRows (blob_update _ _ fun _ => rfl)

/-- Something more is sealed, of which the key is posted, and written to rows. -/
theorem OwnKeys.seal (h : OwnKeys backends s) {e : Sealed}
    {posted : List (String × Provider × Purpose × String)} (hposted : ∀ x ∈ s.posted, x ∈ posted)
    (hkey : (e.tenantId, e.provider, e.purpose, e.key) ∈ posted)
    {up : Bool} {backend : String} {draw : Bytes}
    (hsealed : backends.encrypt up backend draw e.tenantId e.provider e.purpose e.key =
      .ok e.envelope)
    (hrows : ∀ r ∈ rows.rows, (∃ r' ∈ s.rows.rows, r.blob = r'.blob) ∨ r.blob = e.envelope) :
    OwnKeys backends
      { rows := rows, cache := s.cache, sealed := e :: s.sealed, posted := posted } where
  sealed := by
    intro e' he'
    cases List.mem_cons.mp he' with
    | inl heq =>
        rw [heq]
        exact ⟨hkey, up, backend, draw, hsealed⟩
    | inr hold => exact ⟨hposted _ (h.sealed e' hold).1, (h.sealed e' hold).2⟩
  rows := by
    intro r hr
    cases hrows r hr with
    | inl hold =>
        obtain ⟨r', hr', hblob⟩ := hold
        rw [hblob]
        refine (h.rows r' hr').imp_left fun hknown => ?_
        obtain ⟨e', he', hsame⟩ := hknown
        exact ⟨e', List.mem_cons_of_mem _ he', hsame⟩
    | inr hnew =>
        rw [hnew]
        exact .inl ⟨e, List.mem_cons_self, rfl, rfl, rfl, rfl⟩
  cache := h.cache.mono fun _ _ hcred => hcred.mono hposted

theorem ownKeys_noRows : OwnKeys backends noRows where
  sealed _ he := absurd he List.not_mem_nil
  rows _ hr := absurd hr List.not_mem_nil
  cache := OrderedDict.all_empty

end Invariant

section Steps
variable {backends : Backends} {s : Resolver}

theorem OwnKeys.create (h : OwnKeys backends s) (req : CreateRequest String) (up : Bool)
    (backend : String) (draw : Bytes) :
    OwnKeys backends (s.create backends req up backend draw) := by
  rw [Resolver.create]
  split
  case isTrue => exact h
  case isFalse =>
      split
      case h_1 => exact h
      case h_2 envelope hsealed =>
          split
          case h_1 => exact h
          case h_2 rows id hup =>
              apply OwnKeys.drop
              refine h.seal (e := req.upsert.sealedAs envelope) (fun _ => List.mem_cons_of_mem _)
                List.mem_cons_self hsealed ?_
              intro r hr
              obtain ⟨r', hr', hblob⟩ := blob_update rows
                (StoredCredential.touch_id req.validatedAt) (fun _ => rfl) r hr
              rw [hblob]
              exact blob_upsert hup r' hr'

theorem OwnKeys.revalidate (h : OwnKeys backends s) (tenantId id newId : String) (accepted : Bool)
    (env : ResolveEnv) :
    OwnKeys backends (s.revalidate backends tenantId id newId accepted env) := by
  rw [Resolver.revalidate]
  split
  case h_1 => exact h
  case h_2 row hrow =>
      split
      case h_1 => exact h.markInvalid id env.now
      case h_2 =>
          split
          case isTrue => exact h.markInvalid id env.now
          case isFalse =>
              split
              case isTrue => exact h.markValidated id env.now
              case isFalse =>
                  split
                  case h_1 => exact h
                  case h_2 rows _ hup =>
                      apply OwnKeys.drop
                      apply h.ofRows
                      intro r hr
                      cases blob_upsert hup r hr with
                      | inl hold =>
                          obtain ⟨r', hr', hblob⟩ := hold
                          rw [hblob]
                          exact blob_update s.rows (StoredCredential.touch_id env.now)
                            (fun _ => rfl) r' hr'
                      | inr hnew => exact ⟨row, (getById_eq_some.mp hrow).1, hnew⟩

theorem OwnKeys.migrate (hbackends : backends.Authentic) (h : OwnKeys backends s)
    (id source target : String) (up : Bool) (draw : Bytes) (now : Int) :
    OwnKeys backends (s.migrate backends id source target up draw now) := by
  rw [Resolver.migrate]
  split
  case h_1 => exact h
  case h_2 row hrow =>
      split
      case h_1 => exact h
      case h_2 key hopen =>
          split
          case h_1 => exact h
          case h_2 envelope hsealed =>
              have hmem := (Table.row?_eq_some.mp (Option.filter_eq_some_iff.mp hrow).1).1
              refine h.seal (e := ⟨_, _, _, _, envelope⟩) (fun _ hx => hx)
                (h.opened hbackends hmem hopen) hsealed ?_
              intro r hr
              obtain ⟨r', hr', hupdated⟩ := List.mem_map.mp hr
              split at hupdated
              case isTrue =>
                  rw [← hupdated]
                  exact .inr rfl
              case isFalse => exact .inl ⟨r', hr', congrArg StoredCredential.blob hupdated.symm⟩

theorem OwnKeys.decryptRow (hbackends : backends.Authentic) (h : OwnKeys backends s)
    (env : ResolveEnv) {row : StoredCredential Envelope} (hrow : row ∈ s.rows.rows) :
    OwnKeys backends (s.decryptRow backends env row).1 ∧
      (s.decryptRow backends env row).1.posted = s.posted ∧
      ∀ cred, (s.decryptRow backends env row).2 = .ok (some cred) →
        PostedBy s row.tenantId cred := by
  rw [Resolver.decryptRow]
  cases hopen : backends.decryptOf env.vaultUp row with
  | error e =>
      cases e with
      | decryptionError => exact ⟨h.markInvalid row.id env.now, rfl, by simp⟩
      | vaultBackendError | valueError _ | unicodeError => exact ⟨h, rfl, by simp⟩
  | ok key =>
      refine ⟨h, rfl, ?_⟩
      intro cred hcred
      simp only [Except.ok.injEq, Option.some.injEq] at hcred
      rw [← hcred]
      exact ⟨rfl, key, rfl, h.opened hbackends hrow hopen⟩

theorem OwnKeys.resolve (hbackends : backends.Authentic) (h : OwnKeys backends s)
    (env : ResolveEnv) (tenantId : String) (purpose : Purpose) :
    OwnKeys backends (s.resolve backends env tenantId purpose).1 ∧
      ∀ cred, (s.resolve backends env tenantId purpose).2 = .ok (some cred) →
        PostedBy s tenantId cred := by
  rw [Resolver.resolve]
  split
  case isTrue => exact ⟨h, by simp⟩
  case isFalse =>
      obtain ⟨hall, hhit⟩ := cacheGet_all h.cache (tenantId, purpose) env.now
      cases hget : cacheGet s.cache (tenantId, purpose) env.now with
      | mk cache found =>
          rw [hget] at hall hhit
          have hcache := h.ofCache hall
          cases found with
          | some cred =>
              refine ⟨hcache, ?_⟩
              intro cred' hcred'
              simp only [Except.ok.injEq, Option.some.injEq] at hcred'
              obtain ⟨_, hposted⟩ := hhit cred rfl
              exact hcred' ▸ hposted
          | none =>
              cases hrow : (if env.storeDown then none
                  else getActiveForPurpose s.rows tenantId purpose) with
              | none => exact ⟨hcache, by simp⟩
              | some row =>
                  have hactive : getActiveForPurpose s.rows tenantId purpose = some row := by
                    split at hrow
                    case isTrue => cases hrow
                    case isFalse => exact hrow
                  obtain ⟨hmem, htenant, _⟩ := getActiveForPurpose_some hactive
                  obtain ⟨hown, hposted, hcred⟩ := hcache.decryptRow hbackends env hmem
                  dsimp only
                  cases hdec : Resolver.decryptRow backends { s with cache := cache } env row with
                  | mk s₁ answer =>
                      rw [hdec] at hown hposted hcred
                      cases answer with
                      | error e => exact ⟨hown, by simp⟩
                      | ok found =>
                          cases found with
                          | none => exact ⟨hown, by simp⟩
                          | some cred =>
                              have hby : PostedBy s tenantId cred := htenant ▸ hcred cred rfl
                              refine ⟨hown.ofCache (hown.cache.put _ ?_), ?_⟩
                              · exact hby.mono fun x hx => hposted ▸ hx
                              · intro cred' hcred'
                                simp only [Except.ok.injEq, Option.some.injEq] at hcred'
                                exact hcred' ▸ hby

theorem OwnKeys.resolveById (hbackends : backends.Authentic) (h : OwnKeys backends s)
    (env : ResolveEnv) (tenantId id : String) :
    OwnKeys backends (s.resolveById backends env tenantId id).1 ∧
      ∀ cred, (s.resolveById backends env tenantId id).2 = .ok (some cred) →
        PostedBy s tenantId cred := by
  rw [Resolver.resolveById]
  split
  case isTrue => exact ⟨h, by simp⟩
  case isFalse =>
      cases hrow : (if env.storeDown then none else getById s.rows tenantId id) with
      | none => exact ⟨h, by simp⟩
      | some row =>
          have hget : getById s.rows tenantId id = some row := by
            split at hrow
            case isTrue => cases hrow
            case isFalse => exact hrow
          obtain ⟨hmem, _, htenant⟩ := getById_eq_some.mp hget
          obtain ⟨hown, _, hcred⟩ := h.decryptRow hbackends env hmem
          dsimp only
          split
          case isTrue => exact ⟨hown, fun cred hok => htenant ▸ hcred cred hok⟩
          case isFalse => exact ⟨h, by simp⟩

theorem OwnKeys.step (hbackends : backends.Authentic) (h : OwnKeys backends s) (a : ResolverStep)
    (hforges : ForgesNothing backends s a) : OwnKeys backends (resolverStep backends s a) := by
  cases a with
  | create req up backend draw => exact h.create req up backend draw
  | revalidate tenantId id newId accepted env =>
      exact h.revalidate tenantId id newId accepted env
  | revoke tenantId id now =>
      rw [resolverStep]
      split
      case isTrue =>
          have hrows : ∀ r ∈ (Credentials.revoke s.rows tenantId id now).rows,
              ∃ r' ∈ s.rows.rows, r.blob = r'.blob := blob_update s.rows _ fun _ => rfl
          exact (h.ofRows hrows).drop tenantId
      case isFalse => exact h
  | patch tenantId id fields ifMatch now =>
      rw [resolverStep]
      split
      case h_1 rows hpatch =>
          apply OwnKeys.drop
          apply h.ofRows
          rw [Credentials.patch] at hpatch
          split at hpatch
          case isTrue => cases hpatch
          case isFalse =>
              split at hpatch
              case isTrue =>
                  rw [← (Prod.mk.inj hpatch).1]
                  exact blob_update s.rows _ fun _ => rfl
              case isFalse => split_ifs at hpatch <;> cases hpatch
      case h_2 => exact h
  | migrate id source target up draw now => exact h.migrate hbackends id source target up draw now
  | tamper rows => exact ⟨h.sealed, hforges, h.cache⟩
  | resolve env tenantId purpose => exact (h.resolve hbackends env tenantId purpose).1
  | resolveById env tenantId id => exact (h.resolveById hbackends env tenantId id).1
  | invalidate tenantId => exact h.drop tenantId

theorem OwnKeys.resolved (hbackends : backends.Authentic) (h : OwnKeys backends s)
    (a : ResolverStep) :
    ∀ x ∈ resolved backends s a, PostedBy s x.1 x.2 := by
  intro x hx
  cases a with
  | resolve env tenantId purpose =>
      have hposted := (h.resolve hbackends env tenantId purpose).2
      rw [Credentials.resolved] at hx
      split at hx
      case h_1 cred hok =>
          rw [← Option.some.inj hx]
          exact hposted cred hok
      case h_2 => cases hx
  | resolveById env tenantId id =>
      have hposted := (h.resolveById hbackends env tenantId id).2
      rw [Credentials.resolved] at hx
      split at hx
      case h_1 cred hok =>
          rw [← Option.some.inj hx]
          exact hposted cred hok
      case h_2 => cases hx
  | create _ _ _ _ | revalidate _ _ _ _ _ | revoke _ _ _ | patch _ _ _ _ _
  | migrate _ _ _ _ _ _ | tamper _ | invalidate _ => cases hx

end Steps

/-- Whoever moves and rewrites columns, a resolved key is one that the tenant has posted for the
provider and the purpose it comes with. -/
theorem resolved_key_is_own (backends : Backends) (hbackends : backends.Authentic)
    (steps : List ResolverStep)
    (hforges : AllSteps (resolverStep backends) (ForgesNothing backends) noRows steps) :
    AllSteps (resolverStep backends)
      (fun s a => ∀ x ∈ resolved backends s a, PostedBy s x.1 x.2) noRows steps := by
  have hall : Always (resolverStep backends) (OwnKeys backends) noRows steps :=
    always_of_allSteps (fun s a h hforges => h.step hbackends a hforges) ownKeys_noRows hforges
  exact (hforges.and_always hall).mono fun s a h => h.1.resolved hbackends a

section Sample

/-- The bound text written out in front, in place of a cipher. -/
def frame : Bytes → Bytes
  | [] => [0]
  | b :: aad => 1 :: b :: frame aad

def unframe : Bytes → Bytes → Option Bytes
  | [], 0 :: rest => some rest
  | b :: aad, 1 :: c :: rest => if b = c then unframe aad rest else none
  | _, _ => none

theorem unframe_frame (aad rest : Bytes) : unframe aad (frame aad ++ rest) = some rest := by
  induction aad with
  | nil => rfl
  | cons b aad ih => simp [frame, unframe, ih]

theorem unframe_other {aad aad' rest out : Bytes}
    (h : unframe aad' (frame aad ++ rest) = some out) :
    aad' = aad := by
  induction aad generalizing aad' with
  | nil =>
      cases aad' with
      | nil => rfl
      | cons b aad' => simp [frame, unframe] at h
  | cons b aad ih =>
      cases aad' with
      | nil => simp [frame, unframe] at h
      | cons c aad' =>
          simp only [frame, List.cons_append, unframe] at h
          split at h
          case isTrue heq => rw [heq, ih h]
          case isFalse => cases h

def framing : AesGcm where
  encrypt _ data aad := frame aad ++ (data ++ List.replicate 16 0)
  decrypt _ data aad := (unframe aad data).map fun out => out.take (out.length - 16)

theorem framing_authentic : framing.Authentic where
  opens := by
    intro _ data aad
    simp [framing, unframe_frame]
  bound := by
    intro _ data aad aad' out h
    obtain ⟨_, hopen, _⟩ := Option.map_eq_some_iff.mp h
    exact unframe_other hopen
  tagged := by
    intro _ data aad
    simp only [framing, List.length_append, List.length_replicate]
    omega

def framingOnly : Backends where
  localBackend := some ⟨framing, 1⟩
  vaultBackend := none

theorem framingOnly_authentic : framingOnly.Authentic where
  localCipher := by
    intro cipher hcipher
    rw [← Option.some.inj hcipher]
    exact framing_authentic
  vaultEngine _ h := by cases h

/-- A tenant posts a key, the rows are given to another one, and that one resolves. -/
def acmePost : ResolverStep :=
  .create
    { upsert :=
        { tenantId := "acme", provider := .openai, purpose := .llm, blob := "sk-acme"
          baseUrl := none, defaultModel := none, defaultEmbedModel := none, newId := "c1"
          now := 1 }
      accepted := true
      validatedAt := 1 }
    true "local" (List.replicate 12 0)

def giveAway (r : StoredCredential Envelope) : StoredCredential Envelope :=
  { r with tenantId := "evil" }

def rowsGivenAway : CredentialTable Envelope :=
  (exec (resolverStep framingOnly) noRows [acmePost]).rows.update (fun _ => true) giveAway
    fun _ => rfl

theorem rowsGivenAway_known : ∀ r ∈ rowsGivenAway.rows,
    Known (exec (resolverStep framingOnly) noRows [acmePost]) r.blob ∨
      Dead framingOnly r.blob := by
  intro r hr
  have hown : OwnKeys framingOnly (exec (resolverStep framingOnly) noRows [acmePost]) :=
    ownKeys_noRows.step framingOnly_authentic acmePost trivial
  obtain ⟨r', hr', hblob⟩ := blob_update (p := fun _ => true) (f := giveAway) _ (fun _ => rfl)
    (fun _ => rfl) r hr
  rw [hblob]
  exact hown.rows r' hr'

theorem given_rows_yield_nothing :
    AllSteps (resolverStep framingOnly)
      (fun s a => ∀ x ∈ resolved framingOnly s a, PostedBy s x.1 x.2) noRows
      [acmePost, .tamper rowsGivenAway, .resolve ⟨2, false, true⟩ "evil" .llm] :=
  resolved_key_is_own framingOnly framingOnly_authentic _
    ⟨trivial, rowsGivenAway_known, trivial, trivial⟩

end Sample

end Engramia.Credentials
