import Engramia.Credentials.Rotation
import Engramia.Library.CacheAside

/-!
Resolving a credential while it is being changed. A resolve looks into the
cache, reads the row, decrypts it and puts the result into the cache, each as a
step of its own; a change commits a statement and flushes the tenant's entries
afterwards. Any number of either may be under way.

The state keeps its own history: the table after every commit, when each entry
was read, and for each tenant the newest change that has been flushed.
-/
namespace Engramia.Credentials
open Engramia.Library

/-- What is looked up: a tenant and a purpose. -/
abbrev ResolverKey := String × Purpose

/-- Where a resolve stands, with the newest flushed change of its tenant as it began and
the time it read the row. -/
inductive ReaderPhase (B : Type) where
  | idle
  | missed (k : ResolverKey) (since : Nat)
  | fetched (k : ResolverKey) (row : StoredCredential B) (since readAt : Nat)
  | failed (row : StoredCredential B)
  | decrypted (k : ResolverKey) (cred : TenantCredential) (since readAt : Nat)

/-- The changes that flush the resolver once they are committed. -/
inductive CredentialChange (B : Type) where
  | upsert (u : Upsert B)
  | patch (tenantId id : String) (fields : PatchFields) (ifMatch : Option Int) (now : Int)
  | revoke (tenantId id : String) (now : Int)

structure ResolverRace (B θ ω : Type) where
  rows : CredentialTable B
  resolved : OrderedDict ResolverKey (Int × TenantCredential)
  reader : θ → ReaderPhase B
  /-- The tenant a change was committed for, and when. -/
  writer : ω → Option (String × Nat)
  clock : Nat
  past : Nat → CredentialTable B
  settled : String → Nat
  readAt : ResolverKey → Nat

inductive RaceStep (B θ ω : Type) where
  | cacheGet (t : θ) (tenantId : String) (purpose : Purpose) (now : Int)
  | readRow (t : θ) (storeDown : Bool)
  | decrypt (t : θ) (vaultDown : Bool)
  | markInvalid (t : θ) (now : Int)
  | cachePut (t : θ) (now : Int)
  | commit (w : ω) (c : CredentialChange B)
  | markValidated (id : String) (now : Int)
  | invalidate (w : ω)

section Race
variable {B θ ω : Type} [DecidableEq θ] [DecidableEq ω]
  (decrypt : String → Provider → Purpose → B → Option String)

def CredentialChange.tenantId : CredentialChange B → String
  | .upsert u => u.tenantId
  | .patch tenantId _ _ _ _ => tenantId
  | .revoke tenantId _ _ => tenantId

/-- The table after a change, or `none` when the request ends without flushing. -/
def applyChange (rows : CredentialTable B) :
    CredentialChange B → Option (CredentialTable B)
  | .upsert u => (upsert rows u).map Prod.fst
  | .patch tenantId id fields ifMatch now =>
      let result := patch rows tenantId id fields ifMatch now
      if result.2 = .updated then some result.1 else none
  | .revoke tenantId id now =>
      if rows.rows.any (revocable tenantId id) then some (revoke rows tenantId id now) else none

/-- Commit a statement. -/
def ResolverRace.write (s : ResolverRace B θ ω) (rows : CredentialTable B) :
    ResolverRace B θ ω :=
  { s with
    rows := rows
    clock := s.clock + 1
    past := Function.update s.past (s.clock + 1) rows }

def ResolverRace.goTo (s : ResolverRace B θ ω) (t : θ) (phase : ReaderPhase B) :
    ResolverRace B θ ω :=
  { s with reader := Function.update s.reader t phase }

/-- `cache_get`; a hit is the answer. -/
def probeCache (s : ResolverRace B θ ω) (t : θ) (k : ResolverKey) (now : Int) :
    ResolverRace B θ ω :=
  match cacheGet s.resolved k now with
  | (resolved, some _) => { s with resolved := resolved }
  | (resolved, none) => { s with resolved := resolved }.goTo t (.missed k (s.settled k.1))

def fetchRow (s : ResolverRace B θ ω) (t : θ) (k : ResolverKey) (since : Nat)
    (storeDown : Bool) : ResolverRace B θ ω :=
  match if storeDown then none else getActiveForPurpose s.rows k.1 k.2 with
  | some row => s.goTo t (.fetched k row since s.clock)
  | none => s.goTo t .idle

def decryptFetched (s : ResolverRace B θ ω) (t : θ) (k : ResolverKey)
    (row : StoredCredential B) (since readAt : Nat) (vaultDown : Bool) : ResolverRace B θ ω :=
  if vaultDown then s.goTo t .idle
  else
    match row.plaintext decrypt with
    | some plaintext => s.goTo t (.decrypted k (row.toTenantCredential plaintext) since readAt)
    | none => s.goTo t (.failed row)

def putDecrypted (s : ResolverRace B θ ω) (t : θ) (k : ResolverKey) (cred : TenantCredential)
    (readAt : Nat) (now : Int) : ResolverRace B θ ω :=
  { s.goTo t .idle with
    resolved := s.resolved.put resolverCacheMax k (now + cacheTtlMicros, cred)
    readAt := Function.update s.readAt k readAt }

def flushTenant (s : ResolverRace B θ ω) (w : ω) (tenantId : String) (time : Nat) :
    ResolverRace B θ ω :=
  { s with
    resolved := s.resolved.discard fun k => k.1 = tenantId
    settled := Function.update s.settled tenantId (max (s.settled tenantId) time)
    writer := Function.update s.writer w none }

def raceStep (s : ResolverRace B θ ω) : RaceStep B θ ω → ResolverRace B θ ω
  | .cacheGet t tenantId purpose now =>
      match s.reader t with
      | .idle => probeCache s t (tenantId, purpose) now
      | _ => s
  | .readRow t storeDown =>
      match s.reader t with
      | .missed k since => fetchRow s t k since storeDown
      | _ => s
  | .decrypt t vaultDown =>
      match s.reader t with
      | .fetched k row since readAt => decryptFetched decrypt s t k row since readAt vaultDown
      | _ => s
  | .markInvalid t now =>
      match s.reader t with
      | .failed row => (s.write (markInvalid s.rows row.id now)).goTo t .idle
      | _ => s
  | .cachePut t now =>
      match s.reader t with
      | .decrypted k cred _ readAt => putDecrypted s t k cred readAt now
      | _ => s
  | .commit w c =>
      match s.writer w, applyChange s.rows c with
      | none, some rows =>
          { s.write rows with
            writer := Function.update s.writer w (some (c.tenantId, s.clock + 1)) }
      | _, _ => s
  | .markValidated id now => s.write (markValidated s.rows id now)
  | .invalidate w =>
      match s.writer w with
      | some (tenantId, time) => flushTenant s w tenantId time
      | none => s

/-- The process as it starts: any rows, nothing cached, nobody under way. -/
def quiet (rows : CredentialTable B) : ResolverRace B θ ω where
  rows := rows
  resolved := .empty
  reader _ := .idle
  writer _ := none
  clock := 0
  past _ := rows
  settled _ := 0
  readAt _ := 0

/-- The credential a table answers a resolve with. -/
def readCredential (rows : CredentialTable B) (k : ResolverKey) : Option TenantCredential :=
  match getActiveForPurpose rows k.1 k.2 with
  | some row => (row.plaintext decrypt).map row.toTenantCredential
  | none => none

structure Answer where
  key : ResolverKey
  since : Nat
  cred : TenantCredential

/-- The credential a step returns to the caller of a resolve. -/
def answer (s : ResolverRace B θ ω) : RaceStep B θ ω → Option Answer
  | .cacheGet t tenantId purpose now =>
      match s.reader t with
      | .idle =>
          (cacheGet s.resolved (tenantId, purpose) now).2.map fun cred =>
            ⟨(tenantId, purpose), s.settled tenantId, cred⟩
      | _ => none
  | .cachePut t _ =>
      match s.reader t with
      | .decrypted k cred since _ => some ⟨k, since, cred⟩
      | _ => none
  | _ => none

/-- What is returned is the credential as the table had it at some time since the newest
change flushed before the resolve began. -/
def AnswersCurrent (s : ResolverRace B θ ω) (a : RaceStep B θ ω) : Prop :=
  ∀ x ∈ answer s a, ∃ time ∈ List.range (s.clock + 1),
    x.since ≤ time ∧ readCredential decrypt (s.past time) x.key = some x.cred

instance (s : ResolverRace B θ ω) (a : RaceStep B θ ω) :
    Decidable (AnswersCurrent decrypt s a) :=
  inferInstanceAs (Decidable (∀ x ∈ answer s a, _))

/-- No entry was read before the newest flushed change of its tenant. -/
def FreshCache (s : ResolverRace B θ ω) : Prop :=
  ∀ k v, s.resolved.get? k = some v → s.settled k.1 ≤ s.readAt k

/-- A credential is put into the cache only if no change of the tenant has been committed
and flushed since its row was read. -/
def PutInTime (s : ResolverRace B θ ω) : RaceStep B θ ω → Prop
  | .cachePut t _ => ∀ k cred since readAt, s.reader t = .decrypted k cred since readAt →
      s.settled k.1 ≤ readAt
  | _ => True

variable {decrypt} {s : ResolverRace B θ ω}

section Times

def ReaderPhase.lookup : ReaderPhase B → Option (Lookup ResolverKey)
  | .missed k since => some ⟨k, since, none⟩
  | .fetched k _ since readAt => some ⟨k, since, some readAt⟩
  | .decrypted k _ since readAt => some ⟨k, since, some readAt⟩
  | .idle => none
  | .failed _ => none

/-- The times of a state, for the general theory. -/
def times (s : ResolverRace B θ ω) : CacheTimes ResolverKey θ ω where
  clock := s.clock
  settled k := s.settled k.1
  entry k := (s.resolved.get? k).map fun _ => s.readAt k
  lookup t := (s.reader t).lookup
  change w := (s.writer w).map fun c => ⟨c.2, fun k => k.1 = c.1⟩

/-- The keys a cache does not hold. -/
def absent (d : OrderedDict ResolverKey (Int × TenantCredential)) (k : ResolverKey) : Bool :=
  (d.get? k).isNone

theorem cacheGet_subset (d : OrderedDict ResolverKey (Int × TenantCredential)) (k : ResolverKey)
    (now : Int) : ∀ x ∈ (cacheGet d k now).1.entries, x ∈ d.entries := by
  intro x hx
  rw [cacheGet] at hx
  cases hget : d.get? k with
  | none => simpa only [hget] using hx
  | some v =>
      simp only [hget] at hx
      by_cases hexpired : v.1 ≤ now
      · rw [if_pos hexpired] at hx
        exact (OrderedDict.mem_discard.mp hx).1
      · rw [if_neg hexpired] at hx
        exact OrderedDict.mem_moveToEnd hx

theorem cacheGet_hit {d : OrderedDict ResolverKey (Int × TenantCredential)} {k : ResolverKey}
    {now : Int} {cred : TenantCredential} (h : (cacheGet d k now).2 = some cred) :
    ∃ expiresAt, d.get? k = some (expiresAt, cred) := by
  rw [cacheGet] at h
  cases hget : d.get? k with
  | none => simp only [hget] at h; cases h
  | some v =>
      simp only [hget] at h
      by_cases hexpired : v.1 ≤ now
      · rw [if_pos hexpired] at h
        cases h
      · rw [if_neg hexpired] at h
        cases h
        exact ⟨v.1, rfl⟩

omit [DecidableEq ω] in
theorem times_goTo (t : θ) (phase : ReaderPhase B) : times (s.goTo t phase) =
    { times s with lookup := Function.update (times s).lookup t phase.lookup } := by
  ext1
  · rfl
  · rfl
  · rfl
  · exact Function.comp_update ReaderPhase.lookup s.reader t phase
  · rfl

omit [DecidableEq θ] [DecidableEq ω] in
theorem times_resolved {d : OrderedDict ResolverKey (Int × TenantCredential)}
    (hd : ∀ x ∈ d.entries, x ∈ s.resolved.entries) : times { s with resolved := d } =
    { times s with entry := keepEntries (absent d) (times s).entry } := by
  ext1
  · rfl
  · rfl
  · funext k
    show (d.get? k).map _ = keepEntries (absent d) _ k
    rw [keepEntries, absent]
    cases hget : d.get? k with
    | none => rfl
    | some v =>
        have hold := OrderedDict.get?_eq_some.mpr (hd _ (OrderedDict.get?_eq_some.mp hget))
        show some (s.readAt k) = (s.resolved.get? k).map fun _ => s.readAt k
        rw [hold]
        rfl
  · rfl
  · rfl

/-- What happens to the times of a state is one step of the general theory, which is in
time exactly under a condition. -/
def Simulates (s s' : ResolverRace B θ ω) (G : Prop) : Prop :=
  ∃ c, times s' = cacheStep (times s) c ∧ (InTime (times s) c ↔ G)

theorem simulates_skip : Simulates s s True :=
  ⟨.skip, rfl, Iff.rfl⟩

theorem Simulates.of_true {s' : ResolverRace B θ ω} {G : Prop} (h : Simulates s s' True)
    (hG : G) : Simulates s s' G := by
  obtain ⟨c, hc, hin⟩ := h
  exact ⟨c, hc, hin.trans (iff_of_true trivial hG)⟩

theorem simulates_goTo_idle (t : θ) : Simulates s (s.goTo t .idle) True := by
  refine ⟨.quit t fun _ => false, ?_, Iff.rfl⟩
  rw [times_goTo]
  rfl

theorem simulates_goTo_same {t : θ} {phase : ReaderPhase B}
    (h : phase.lookup = (s.reader t).lookup) : Simulates s (s.goTo t phase) True := by
  refine ⟨.skip, ?_, Iff.rfl⟩
  rw [times_goTo, h]
  have hsame : Function.update (times s).lookup t (s.reader t).lookup = (times s).lookup :=
    Function.update_eq_self t (times s).lookup
  rw [hsame]
  rfl

theorem simulates_probe {t : θ} {k : ResolverKey} (hidle : s.reader t = .idle) (now : Int) :
    Simulates s (probeCache s t k now) True := by
  have hsub := cacheGet_subset s.resolved k now
  rw [probeCache]
  cases hget : cacheGet s.resolved k now with
  | mk resolved hit =>
      rw [hget] at hsub
      cases hit with
      | none =>
          refine ⟨.probe t k (absent resolved), ?_, Iff.rfl⟩
          simp only
          rw [times_goTo, times_resolved hsub]
          rfl
      | some cred =>
          refine ⟨.quit t (absent resolved), ?_, Iff.rfl⟩
          have hnone : (times s).lookup t = none := by
            show (s.reader t).lookup = none
            rw [hidle]
            rfl
          have hsame : Function.update (times s).lookup t none = (times s).lookup := by
            rw [← hnone, Function.update_eq_self]
          simp only [cacheStep]
          rw [times_resolved hsub, hsame]

theorem simulates_fetch {t : θ} {k : ResolverKey} {since : Nat}
    (hmissed : s.reader t = .missed k since) (storeDown : Bool) :
    Simulates s (fetchRow s t k since storeDown) True := by
  rw [fetchRow]
  cases if storeDown then none else getActiveForPurpose s.rows k.1 k.2 with
  | none => exact simulates_goTo_idle t
  | some row =>
      refine ⟨.read t, ?_, Iff.rfl⟩
      have hlookup : (times s).lookup t = some ⟨k, since, none⟩ := by
        show (s.reader t).lookup = _
        rw [hmissed]
        rfl
      simp only [cacheStep, hlookup]
      exact times_goTo t _

theorem simulates_decrypt {t : θ} {k : ResolverKey} {row : StoredCredential B}
    {since readAt : Nat} (hfetched : s.reader t = .fetched k row since readAt)
    (vaultDown : Bool) :
    Simulates s (decryptFetched decrypt s t k row since readAt vaultDown) True := by
  rw [decryptFetched]
  by_cases hdown : vaultDown = true
  · rw [if_pos hdown]
    exact simulates_goTo_idle t
  · rw [if_neg hdown]
    cases row.plaintext decrypt with
    | some plaintext =>
        apply simulates_goTo_same
        rw [hfetched]
        rfl
    | none =>
        refine ⟨.quit t fun _ => false, ?_, Iff.rfl⟩
        rw [times_goTo]
        rfl

theorem simulates_put {t : θ} {k : ResolverKey} {cred : TenantCredential} {since readAt : Nat}
    (hdecrypted : s.reader t = .decrypted k cred since readAt) (now : Int) :
    Simulates s (putDecrypted s t k cred readAt now) (s.settled k.1 ≤ readAt) := by
  have hlookup : (times s).lookup t = some ⟨k, since, some readAt⟩ := by
    show (s.reader t).lookup = _
    rw [hdecrypted]
    rfl
  have hself : (s.resolved.put resolverCacheMax k (now + cacheTtlMicros, cred)).get? k =
      some (now + cacheTtlMicros, cred) := OrderedDict.get?_put_self (by decide)
  have hother : ∀ k' v, k' ≠ k →
      (s.resolved.put resolverCacheMax k (now + cacheTtlMicros, cred)).get? k' = some v →
      s.resolved.get? k' = some v := fun _ _ hk h => OrderedDict.get?_of_put hk h
  rw [putDecrypted]
  generalize s.resolved.put resolverCacheMax k (now + cacheTtlMicros, cred) = d at hself hother ⊢
  refine ⟨.put t (absent d), ?_, ?_⟩
  · simp only [cacheStep, hlookup]
    ext1
    · rfl
    · rfl
    · funext k'
      show Option.map (fun _ => Function.update s.readAt k readAt k') (d.get? k') =
        keepEntries (absent d) (Function.update (times s).entry k (some readAt)) k'
      rw [keepEntries, absent]
      cases hget : d.get? k' with
      | none => rfl
      | some v =>
          show some (Function.update s.readAt k readAt k') =
            Function.update (times s).entry k (some readAt) k'
          by_cases hk : k' = k
          · rw [hk, Function.update_self, Function.update_self]
          · rw [Function.update_of_ne hk, Function.update_of_ne hk]
            show _ = (s.resolved.get? k').map fun _ => s.readAt k'
            rw [hother k' v hk hget]
            rfl
    · exact Function.comp_update ReaderPhase.lookup s.reader t .idle
    · rfl
  · rw [InTime]
    constructor
    · intro h
      apply h k since readAt hlookup
      rw [absent, hself]
      rfl
    · intro h k' since' time hl _
      rw [hlookup] at hl
      cases hl
      exact h

theorem simulates_commit (w : ω) (tenantId : String) (rows : CredentialTable B) :
    Simulates s { s.write rows with
      writer := Function.update s.writer w (some (tenantId, s.clock + 1)) } True := by
  refine ⟨.commit (fun k => k.1 = tenantId) (some w), ?_, Iff.rfl⟩
  simp only [cacheStep]
  ext1
  · rfl
  · rfl
  · rfl
  · rfl
  · exact Function.comp_update (fun c : Option (String × Nat) =>
      c.map fun c => (⟨c.2, fun k => k.1 = c.1⟩ : PendingChange ResolverKey)) s.writer w _

theorem simulates_flush {w : ω} {tenantId : String} {time : Nat}
    (hwriter : s.writer w = some (tenantId, time)) :
    Simulates s (flushTenant s w tenantId time) True := by
  have hchange : (times s).change w = some ⟨time, fun k => k.1 = tenantId⟩ := by
    show (s.writer w).map _ = _
    rw [hwriter]
    rfl
  refine ⟨.settle w fun k => k.1 = tenantId, ?_, ?_⟩
  · simp only [cacheStep, hchange]
    ext1
    · rfl
    · funext k
      show Function.update s.settled tenantId (max (s.settled tenantId) time) k.1 =
        settleKeys _ _ k
      rw [settleKeys]
      by_cases hk : k.1 = tenantId
      · rw [if_pos (decide_eq_true hk), hk, Function.update_self, ← hk]
        rfl
      · rw [if_neg (by simpa using hk), Function.update_of_ne hk]
        rfl
    · funext k
      show Option.map (fun _ => s.readAt k)
          ((s.resolved.discard fun k => k.1 = tenantId).get? k) =
        keepEntries (fun k => k.1 = tenantId) (times s).entry k
      rw [OrderedDict.get?_discard, keepEntries]
      by_cases hk : k.1 = tenantId
      · simp [hk]
      · simp [hk, times]
    · rfl
    · exact Function.comp_update (fun c : Option (String × Nat) =>
        c.map fun c => (⟨c.2, fun k => k.1 = c.1⟩ : PendingChange ResolverKey)) s.writer w _
  · rw [InTime]
    refine iff_of_true ?_ trivial
    intro p hp k time' hchanged hkeep
    rw [hchange] at hp
    cases hp
    change decide (k.1 = tenantId) = true at hchanged
    rw [hkeep] at hchanged
    cases hchanged

theorem simulates_write (rows : CredentialTable B) : Simulates s (s.write rows) True :=
  ⟨.commit (fun _ => false) none, rfl, Iff.rfl⟩

theorem simulates_writeFailed {t : θ} {row : StoredCredential B} (h : s.reader t = .failed row)
    (rows : CredentialTable B) : Simulates s ((s.write rows).goTo t .idle) True := by
  obtain ⟨c, hc, hin⟩ := simulates_write (s := s) rows
  refine ⟨c, ?_, hin⟩
  have hsame : Function.update (times s).lookup t none = (times s).lookup := by
    have hnone : (times s).lookup t = none := by
      show (s.reader t).lookup = none
      rw [h]
      rfl
    rw [← hnone, Function.update_eq_self]
  rw [← hc, times_goTo]
  ext1
  · rfl
  · rfl
  · rfl
  · exact hsame
  · rfl

variable (decrypt) in
theorem raceStep_simulates (s : ResolverRace B θ ω) (a : RaceStep B θ ω) :
    Simulates s (raceStep decrypt s a) (PutInTime s a) := by
  cases a with
  | cacheGet t tenantId purpose now =>
      rw [raceStep]
      cases hreader : s.reader t with
      | idle => exact simulates_probe hreader now
      | missed k since => exact simulates_skip
      | fetched k row since readAt => exact simulates_skip
      | failed row => exact simulates_skip
      | decrypted k cred since readAt => exact simulates_skip
  | readRow t storeDown =>
      rw [raceStep]
      cases hreader : s.reader t with
      | missed k since => exact simulates_fetch hreader storeDown
      | idle => exact simulates_skip
      | fetched k row since readAt => exact simulates_skip
      | failed row => exact simulates_skip
      | decrypted k cred since readAt => exact simulates_skip
  | decrypt t vaultDown =>
      rw [raceStep]
      cases hreader : s.reader t with
      | fetched k row since readAt => exact simulates_decrypt hreader vaultDown
      | idle => exact simulates_skip
      | missed k since => exact simulates_skip
      | failed row => exact simulates_skip
      | decrypted k cred since readAt => exact simulates_skip
  | markInvalid t now =>
      rw [raceStep]
      cases hreader : s.reader t with
      | failed row => exact simulates_writeFailed hreader _
      | idle => exact simulates_skip
      | missed k since => exact simulates_skip
      | fetched k row since readAt => exact simulates_skip
      | decrypted k cred since readAt => exact simulates_skip
  | cachePut t now =>
      rw [raceStep, PutInTime]
      cases hreader : s.reader t with
      | decrypted k cred since readAt =>
          obtain ⟨c, hc, hin⟩ := simulates_put hreader now
          refine ⟨c, hc, hin.trans ?_⟩
          constructor
          · intro h k' cred' since' readAt' heq
            cases heq
            exact h
          · intro h
            exact h k cred since readAt rfl
      | idle => exact simulates_skip.of_true fun _ _ _ _ h => by cases h
      | missed k since => exact simulates_skip.of_true fun _ _ _ _ h => by cases h
      | fetched k row since readAt => exact simulates_skip.of_true fun _ _ _ _ h => by cases h
      | failed row => exact simulates_skip.of_true fun _ _ _ _ h => by cases h
  | commit w c =>
      rw [raceStep]
      cases s.writer w with
      | some change => exact simulates_skip
      | none =>
          cases applyChange s.rows c with
          | none => exact simulates_skip
          | some rows => exact simulates_commit w c.tenantId rows
  | markValidated id now => exact simulates_write _
  | invalidate w =>
      rw [raceStep]
      cases hwriter : s.writer w with
      | none => exact simulates_skip
      | some change => exact simulates_flush hwriter

/-- Every credential under way or in the cache is what the table held when it was read. -/
structure Traced (decrypt : String → Provider → Purpose → B → Option String)
    (s : ResolverRace B θ ω) : Prop where
  now : s.past s.clock = s.rows
  entry : ∀ k v, s.resolved.get? k = some v →
    s.readAt k ≤ s.clock ∧ readCredential decrypt (s.past (s.readAt k)) k = some v.2
  fetched : ∀ t k row since readAt, s.reader t = .fetched k row since readAt →
    since ≤ readAt ∧ readAt ≤ s.clock ∧
      getActiveForPurpose (s.past readAt) k.1 k.2 = some row
  decrypted : ∀ t k cred since readAt, s.reader t = .decrypted k cred since readAt →
    since ≤ readAt ∧ readAt ≤ s.clock ∧ readCredential decrypt (s.past readAt) k = some cred

end Times

namespace Traced

omit [DecidableEq θ] [DecidableEq ω] in
theorem of_subset (h : Traced decrypt s) {d : OrderedDict ResolverKey (Int × TenantCredential)}
    (hd : ∀ x ∈ d.entries, x ∈ s.resolved.entries) :
    Traced decrypt { s with resolved := d } where
  now := h.now
  entry k v hk :=
    h.entry k v (OrderedDict.get?_eq_some.mpr (hd _ (OrderedDict.get?_eq_some.mp hk)))
  fetched := h.fetched
  decrypted := h.decrypted

omit [DecidableEq ω] in
theorem goTo (h : Traced decrypt s) {t : θ} {phase : ReaderPhase B}
    (hfetched : ∀ k row since readAt, phase = .fetched k row since readAt →
      since ≤ readAt ∧ readAt ≤ s.clock ∧
        getActiveForPurpose (s.past readAt) k.1 k.2 = some row)
    (hdecrypted : ∀ k cred since readAt, phase = .decrypted k cred since readAt →
      since ≤ readAt ∧ readAt ≤ s.clock ∧
        readCredential decrypt (s.past readAt) k = some cred) :
    Traced decrypt (s.goTo t phase) where
  now := h.now
  entry := h.entry
  fetched t' k row since readAt ht := by
    by_cases htt : t' = t
    · simp only [ResolverRace.goTo, htt, Function.update_self] at ht
      exact hfetched k row since readAt ht
    · simp only [ResolverRace.goTo, Function.update_of_ne htt] at ht
      exact h.fetched t' k row since readAt ht
  decrypted t' k cred since readAt ht := by
    by_cases htt : t' = t
    · simp only [ResolverRace.goTo, htt, Function.update_self] at ht
      exact hdecrypted k cred since readAt ht
    · simp only [ResolverRace.goTo, Function.update_of_ne htt] at ht
      exact h.decrypted t' k cred since readAt ht

omit [DecidableEq ω] in
theorem goTo_idle (h : Traced decrypt s) (t : θ) : Traced decrypt (s.goTo t .idle) := by
  apply h.goTo
  · intro k row since readAt heq
    cases heq
  · intro k cred since readAt heq
    cases heq

omit [DecidableEq θ] [DecidableEq ω] in
theorem write (h : Traced decrypt s) (rows : CredentialTable B) :
    Traced decrypt (s.write rows) := by
  have hpast : ∀ time, time ≤ s.clock → (s.write rows).past time = s.past time := by
    intro time htime
    simp only [ResolverRace.write]
    rw [Function.update_of_ne (by omega)]
  refine ⟨Function.update_self .., ?_, ?_, ?_⟩
  · intro k v hk
    obtain ⟨hle, hread⟩ := h.entry k v hk
    refine ⟨Nat.le_succ_of_le hle, ?_⟩
    show readCredential decrypt ((s.write rows).past (s.readAt k)) k = some v.2
    rwa [hpast _ hle]
  · intro t k row since readAt ht
    obtain ⟨hsince, hle, hread⟩ := h.fetched t k row since readAt ht
    exact ⟨hsince, Nat.le_succ_of_le hle, by rwa [hpast _ hle]⟩
  · intro t k cred since readAt ht
    obtain ⟨hsince, hle, hread⟩ := h.decrypted t k cred since readAt ht
    exact ⟨hsince, Nat.le_succ_of_le hle, by rwa [hpast _ hle]⟩

omit [DecidableEq ω] in
theorem put (h : Traced decrypt s) {t : θ} {k : ResolverKey} {cred : TenantCredential}
    {since readAt : Nat} (hdecrypted : s.reader t = .decrypted k cred since readAt) (now : Int) :
    Traced decrypt (putDecrypted s t k cred readAt now) := by
  have hself : (s.resolved.put resolverCacheMax k (now + cacheTtlMicros, cred)).get? k =
      some (now + cacheTtlMicros, cred) := OrderedDict.get?_put_self (by decide)
  have hother : ∀ k' v, k' ≠ k →
      (s.resolved.put resolverCacheMax k (now + cacheTtlMicros, cred)).get? k' = some v →
      s.resolved.get? k' = some v := fun _ _ hk h => OrderedDict.get?_of_put hk h
  have hidle := h.goTo_idle t
  rw [putDecrypted]
  generalize s.resolved.put resolverCacheMax k (now + cacheTtlMicros, cred) = d at hself hother ⊢
  refine ⟨h.now, ?_, hidle.fetched, hidle.decrypted⟩
  intro k' v hk
  by_cases hkk : k' = k
  · subst hkk
    simp only [hself, Option.some.injEq] at hk
    rw [← hk]
    simp only [Function.update_self]
    exact (h.decrypted t k' cred since readAt hdecrypted).2
  · simp only [Function.update_of_ne hkk]
    exact h.entry k' v (hother k' v hkk hk)

omit [DecidableEq ω] in
theorem probe (h : Traced decrypt s) (t : θ) (k : ResolverKey) (now : Int) :
    Traced decrypt (probeCache s t k now) := by
  have hsub := cacheGet_subset s.resolved k now
  rw [probeCache]
  cases hget : cacheGet s.resolved k now with
  | mk resolved hit =>
      rw [hget] at hsub
      cases hit with
      | some cred => exact h.of_subset hsub
      | none =>
          apply (h.of_subset hsub).goTo
          · intro k row since readAt heq
            cases heq
          · intro k cred since readAt heq
            cases heq

omit [DecidableEq ω] in
theorem read (h : Traced decrypt s) {t : θ} {k : ResolverKey} {since : Nat}
    (hsince : since ≤ s.clock) (storeDown : Bool) :
    Traced decrypt (fetchRow s t k since storeDown) := by
  rw [fetchRow]
  cases storeDown with
  | true => exact h.goTo_idle t
  | false =>
      simp only [Bool.false_eq_true, if_false]
      cases hrow : getActiveForPurpose s.rows k.1 k.2 with
      | none => exact h.goTo_idle t
      | some row =>
          apply h.goTo
          · intro k' row' since' readAt heq
            cases heq
            rw [h.now]
            exact ⟨hsince, Nat.le_refl _, hrow⟩
          · intro k' cred since' readAt heq
            cases heq

omit [DecidableEq ω] in
theorem fetched_decrypt (h : Traced decrypt s) {t : θ} {k : ResolverKey} {row : StoredCredential B}
    {since readAt : Nat} (hfetched : s.reader t = .fetched k row since readAt)
    (vaultDown : Bool) :
    Traced decrypt (decryptFetched decrypt s t k row since readAt vaultDown) := by
  obtain ⟨hsince, hle, hrow⟩ := h.fetched t k row since readAt hfetched
  rw [decryptFetched]
  cases vaultDown with
  | true => exact h.goTo_idle t
  | false =>
      simp only [Bool.false_eq_true, if_false]
      cases hplain : row.plaintext decrypt with
      | none =>
          apply h.goTo
          · intro k' row' since' readAt' heq
            cases heq
          · intro k' cred since' readAt' heq
            cases heq
      | some plaintext =>
          apply h.goTo
          · intro k' row' since' readAt' heq
            cases heq
          · intro k' cred since' readAt' heq
            cases heq
            refine ⟨hsince, hle, ?_⟩
            rw [readCredential, hrow]
            simp only [hplain, Option.map_some]

theorem step (h : Traced decrypt s) (hdated : Dated (times s)) (a : RaceStep B θ ω) :
    Traced decrypt (raceStep decrypt s a) := by
  cases a with
  | cacheGet t tenantId purpose now =>
      rw [raceStep]
      cases s.reader t with
      | idle => exact h.probe t _ now
      | missed k since => exact h
      | fetched k row since readAt => exact h
      | decrypted k cred since readAt => exact h
      | failed row => exact h
  | readRow t storeDown =>
      rw [raceStep]
      cases hreader : s.reader t with
      | missed k since =>
          apply h.read
          exact hdated.lookup t ⟨k, since, none⟩ (by simp only [times, hreader, ReaderPhase.lookup])
      | idle => exact h
      | fetched k row since readAt => exact h
      | decrypted k cred since readAt => exact h
      | failed row => exact h
  | decrypt t vaultDown =>
      rw [raceStep]
      cases hreader : s.reader t with
      | fetched k row since readAt => exact h.fetched_decrypt hreader vaultDown
      | idle => exact h
      | missed k since => exact h
      | decrypted k cred since readAt => exact h
      | failed row => exact h
  | markInvalid t now =>
      rw [raceStep]
      cases s.reader t with
      | failed row => exact (h.write _).goTo_idle t
      | idle => exact h
      | missed k since => exact h
      | fetched k row since readAt => exact h
      | decrypted k cred since readAt => exact h
  | cachePut t now =>
      rw [raceStep]
      cases hreader : s.reader t with
      | decrypted k cred since readAt => exact h.put hreader now
      | idle => exact h
      | missed k since => exact h
      | fetched k row since readAt => exact h
      | failed row => exact h
  | commit w c =>
      rw [raceStep]
      cases s.writer w with
      | some change => exact h
      | none =>
          cases applyChange s.rows c with
          | none => exact h
          | some rows =>
              have hwrite := h.write rows
              exact ⟨hwrite.now, hwrite.entry, hwrite.fetched, hwrite.decrypted⟩
  | markValidated id now => exact h.write _
  | invalidate w =>
      rw [raceStep]
      cases s.writer w with
      | none => exact h
      | some change =>
          have hsub : ∀ x ∈ (s.resolved.discard fun k => k.1 = change.1).entries,
              x ∈ s.resolved.entries := fun x hx => (OrderedDict.mem_discard.mp hx).1
          have hnext := h.of_subset hsub
          exact ⟨hnext.now, hnext.entry, hnext.fetched, hnext.decrypted⟩

end Traced

theorem dated_step (h : Dated (times s)) (a : RaceStep B θ ω) :
    Dated (times (raceStep decrypt s a)) := by
  obtain ⟨c, hc, -⟩ := raceStep_simulates decrypt s a
  rw [hc]
  exact h.step c

omit [DecidableEq θ] [DecidableEq ω] in
theorem freshCache_iff : FreshCache s ↔ NoStale (times s) := by
  constructor
  · intro h k time hk
    obtain ⟨v, hv, htime⟩ := Option.map_eq_some_iff.mp hk
    rw [← htime]
    exact h k v hv
  · intro h k v hk
    apply h k (s.readAt k)
    simp only [times, hk, Option.map_some]

theorem freshCache_step_iff (h : FreshCache s) (a : RaceStep B θ ω) :
    FreshCache (raceStep decrypt s a) ↔ PutInTime s a := by
  obtain ⟨c, hc, hin⟩ := raceStep_simulates decrypt s a
  rw [freshCache_iff, hc, noStale_cacheStep_iff (freshCache_iff.mp h), hin]

omit [DecidableEq θ] [DecidableEq ω] in
/-- With a fresh cache every resolve is answered with a credential of its own time. -/
theorem answersCurrent_of_fresh (htraced : Traced decrypt s) (h : FreshCache s)
    (a : RaceStep B θ ω) : AnswersCurrent decrypt s a := by
  intro x hx
  cases a with
  | cacheGet t tenantId purpose now =>
      simp only [answer] at hx
      split at hx
      · obtain ⟨cred, hcred, hxcred⟩ := Option.map_eq_some_iff.mp hx
        obtain ⟨expiresAt, hget⟩ := cacheGet_hit hcred
        obtain ⟨hle, hread⟩ := htraced.entry _ _ hget
        subst hxcred
        exact ⟨_, List.mem_range.mpr (Nat.lt_succ_of_le hle), h _ _ hget, hread⟩
      · cases hx
  | cachePut t now =>
      simp only [answer] at hx
      split at hx
      · rename_i k cred since readAt hdecrypted
        obtain ⟨hsince, hle, hread⟩ := htraced.decrypted t k cred since readAt hdecrypted
        cases hx
        exact ⟨_, List.mem_range.mpr (Nat.lt_succ_of_le hle), hsince, hread⟩
      · cases hx
  | readRow t storeDown => cases hx
  | decrypt t vaultDown => cases hx
  | markInvalid t now => cases hx
  | commit w c => cases hx
  | markValidated id now => cases hx
  | invalidate w => cases hx

end Race

/-- The cache is fresh throughout a run exactly when nothing is put into it late, and then
no resolve is answered with a credential older than the changes flushed before it began. -/
theorem resolver_coherent_iff {B θ ω : Type} [DecidableEq θ] [DecidableEq ω]
    (decrypt : String → Provider → Purpose → B → Option String) (rows : CredentialTable B)
    (run : List (RaceStep B θ ω)) :
    (Always (raceStep decrypt) FreshCache (quiet rows) run ↔
      AllSteps (raceStep decrypt) PutInTime (quiet rows) run) ∧
    (AllSteps (raceStep decrypt) PutInTime (quiet rows) run →
      AllSteps (raceStep decrypt) (AnswersCurrent decrypt) (quiet rows) run) := by
  have hfresh : FreshCache (quiet rows : ResolverRace B θ ω) := by
    intro k v hk
    cases hk
  have hiff := always_iff_allSteps (P := FreshCache)
    (fun _ a h => @freshCache_step_iff B θ ω _ _ decrypt _ h a) hfresh run
  refine ⟨hiff, ?_⟩
  intro hput
  have htraced : Always (raceStep decrypt) (fun s => Dated (times s) ∧ Traced decrypt s)
      (quiet rows) run := by
    apply always_of_step
    · intro s a hs
      exact ⟨dated_step hs.1 a, hs.2.step hs.1 a⟩
    · refine ⟨dated_empty, rfl, ?_, ?_, ?_⟩
      · intro k v hk
        cases hk
      · intro t k row since readAt ht
        cases ht
      · intro t k cred since readAt ht
        cases ht
  have hall := ((allSteps_true (quiet rows) run).and_always
    (hiff.mpr hput)).and_always htraced
  exact hall.mono fun s a hs => answersCurrent_of_fresh hs.1.2 hs.2.1 a

section Sample

def acmeUpsert (key : String) : Upsert String :=
  ⟨"acme", .openai, .llm, key, none, none, none, "cred-1", 0⟩

def acmeRows : CredentialTable String :=
  ⟨[(acmeUpsert "sk-old-key").row], List.nodup_singleton _⟩

/-- One resolve has decrypted the old key when the rotation is committed and flushed. -/
def lateResolve : List (RaceStep String Bool Unit) :=
  [.cacheGet true "acme" .llm 0, .readRow true false, .decrypt true false,
    .commit () (.upsert (acmeUpsert "sk-new-key")), .markValidated "cred-1" 0, .invalidate (),
    .cachePut true 0, .cacheGet false "acme" .llm 0]

/-- A resolve that begins after the rotation returned is answered with the old key. -/
theorem old_key_resolved :
    ¬ AllSteps (raceStep plainDecrypt) (AnswersCurrent plainDecrypt) (quiet acmeRows)
      lateResolve := by
  decide +kernel

end Sample

end Engramia.Credentials
