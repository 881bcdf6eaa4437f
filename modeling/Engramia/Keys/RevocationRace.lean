import Engramia.Keys.Routes
import Engramia.Library.CacheAside
import Engramia.Library.Run

/-!
Authentication while keys are revoked and rotated, in one process. A lookup probes the
cache, reads the table and puts what it read into the cache, each as a step of its own;
a change reads the row, writes it in a transaction of its own, and evicts the hash that
it has read. Any number of either may be under way.

The state keeps its own history: when each entry was read, and for each hash the newest
change of it that has returned.
-/
namespace Engramia.Keys
open Engramia.Library

/-- Where a lookup stands: its hash, the process time it began at, the newest change of
the hash that had returned by then, and what it read. -/
inductive LookupPhase where
  | idle
  | missed (h : String) (monotonic : Int) (since : Nat)
  | fetched (h : String) (monotonic : Int) (row : Option AuthRow) (since readAt : Nat)

inductive KeyChange where
  | revoke
  | rotate
deriving DecidableEq

/-- Where a change stands: the hash that it has read and will evict, and, once it has
written, the hash that the row had until then. -/
inductive ChangePhase where
  | idle
  | checked (change : KeyChange) (keyId evicts : String)
  | written (evicts replaced : String) (time : Nat)

structure AuthRace (θ ω : Type) where
  keys : KeyTable
  cache : KeyCache
  lookup : θ → LookupPhase
  change : ω → ChangePhase
  clock : Nat
  settled : String → Nat
  readAt : String → Nat

inductive AuthRaceStep (θ ω : Type) where
  | probe (t : θ) (token : String) (monotonic : Int)
  | read (t : θ) (now : Int) (dbDown : Bool)
  | put (t : θ)
  | check (w : ω) (change : KeyChange) (keyId tenantId projectId : String)
  | update (w : ω) (suffix : String) (now : Int)
  | evict (w : ω)
  | insert (r : ApiKey)

section Race
variable {θ ω : Type} [DecidableEq θ] [DecidableEq ω] (hash : String → String)

def AuthRace.goTo (s : AuthRace θ ω) (t : θ) (phase : LookupPhase) : AuthRace θ ω :=
  { s with lookup := Function.update s.lookup t phase }

def AuthRace.moveTo (s : AuthRace θ ω) (w : ω) (phase : ChangePhase) : AuthRace θ ω :=
  { s with change := Function.update s.change w phase }

def AuthRace.write (s : AuthRace θ ω) (keys : KeyTable) : AuthRace θ ω :=
  { s with keys := keys, clock := s.clock + 1 }

/-- The start of `_lookup_key_cached`; a hit ends it. -/
def probeHash (s : AuthRace θ ω) (t : θ) (h : String) (monotonic : Int) : AuthRace θ ω :=
  match probeKeyCache s.cache h monotonic with
  | (cache, some _) => { s with cache := cache }
  | (cache, none) => { s with cache := cache }.goTo t (.missed h monotonic (s.settled h))

def putFetched (s : AuthRace θ ω) (t : θ) (h : String) (monotonic : Int) (row : Option AuthRow)
    (readAt : Nat) : AuthRace θ ω :=
  { s.goTo t .idle with
    cache := storeKey s.cache h monotonic row
    readAt := Function.update s.readAt h readAt }

/-- The first transaction of `revoke_key` and `rotate_key`. -/
def checkKey (s : AuthRace θ ω) (w : ω) (change : KeyChange) (keyId tenantId projectId : String) :
    AuthRace θ ω :=
  match s.keys.fetch keyId tenantId projectId with
  | none => s
  | some r => if r.revokedAt.isSome then s else s.moveTo w (.checked change keyId r.keyHash)

/-- The table after the second transaction, unless it fails. -/
def changedTable (keys : KeyTable) (change : KeyChange) (keyId suffix : String) (now : Int) :
    Option KeyTable :=
  match change with
  | .revoke => some (keys.revoke keyId now)
  | .rotate =>
      let g := generateKey hash suffix
      keys.rotate keyId g.keyHash g.displayPrefix

/-- The hash a row has when it is written; a row that is gone has the one that was read. -/
def hashNow (keys : KeyTable) (keyId evicts : String) : String :=
  ((keys.row? keyId).map ApiKey.keyHash).getD evicts

def updateKey (s : AuthRace θ ω) (w : ω) (change : KeyChange) (keyId evicts suffix : String)
    (now : Int) : AuthRace θ ω :=
  match changedTable hash s.keys change keyId suffix now with
  | none => s.moveTo w .idle
  | some keys =>
      (s.write keys).moveTo w (.written evicts (hashNow s.keys keyId evicts) (s.clock + 1))

/-- `invalidate_key_cache`, after which the request returns. -/
def evictHash (s : AuthRace θ ω) (w : ω) (evicts replaced : String) (time : Nat) :
    AuthRace θ ω :=
  { s.moveTo w .idle with
    cache := invalidateKeyCache s.cache evicts
    settled := fun h =>
      if h = evicts || h = replaced then max (s.settled h) time else s.settled h }

def authRaceStep (s : AuthRace θ ω) : AuthRaceStep θ ω → AuthRace θ ω
  | .probe t token monotonic =>
      match s.lookup t with
      | .idle => probeHash s t (hash token) monotonic
      | _ => s
  | .read t now dbDown =>
      match s.lookup t with
      | .missed h monotonic since =>
          let row := if dbDown then none else s.keys.lookup h now
          s.goTo t (.fetched h monotonic row since s.clock)
      | _ => s
  | .put t =>
      match s.lookup t with
      | .fetched h monotonic row _ readAt => putFetched s t h monotonic row readAt
      | _ => s
  | .check w change keyId tenantId projectId =>
      match s.change w with
      | .idle => checkKey s w change keyId tenantId projectId
      | _ => s
  | .update w suffix now =>
      match s.change w with
      | .checked change keyId evicts => updateKey hash s w change keyId evicts suffix now
      | _ => s
  | .evict w =>
      match s.change w with
      | .written evicts replaced time => evictHash s w evicts replaced time
      | _ => s
  | .insert r =>
      match s.keys.insert r with
      | some keys => s.write keys
      | none => s

/-- The process as it starts: any keys, nothing cached, nobody under way. -/
def started (keys : KeyTable) : AuthRace θ ω where
  keys := keys
  cache := .empty
  lookup _ := .idle
  change _ := .idle
  clock := 0
  settled _ := 0
  readAt _ := 0

/-- The row the cache has for a hash. -/
def cachedRow (cache : KeyCache) (h : String) : Option AuthRow :=
  (cache.get? h).bind Prod.snd

structure AuthAnswer where
  keyHash : String
  /-- The newest change of the hash that had returned as the lookup began, or 0. -/
  since : Nat
  row : Option AuthRow

/-- What a step answers a lookup with. -/
def authAnswer (s : AuthRace θ ω) : AuthRaceStep θ ω → Option AuthAnswer
  | .probe t token monotonic =>
      match s.lookup t with
      | .idle =>
          (probeKeyCache s.cache (hash token) monotonic).2.map fun row =>
            ⟨hash token, s.settled (hash token), row⟩
      | _ => none
  | .put t =>
      match s.lookup t with
      | .fetched h _ row since _ => some ⟨h, since, row⟩
      | _ => none
  | _ => none

/-- A lookup that began after a change of its secret had returned is refused. -/
def OldSecretRefused (s : AuthRace θ ω) (a : AuthRaceStep θ ω) : Prop :=
  ∀ x ∈ authAnswer hash s a, 0 < x.since → x.row = none

instance (s : AuthRace θ ω) (a : AuthRaceStep θ ω) : Decidable (OldSecretRefused hash s a) :=
  inferInstanceAs (Decidable (∀ x ∈ authAnswer hash s a, 0 < x.since → x.row = none))

/-- No row in the cache was read before the newest returned change of its hash. -/
def FreshKeys (s : AuthRace θ ω) : Prop :=
  ∀ h row, cachedRow s.cache h = some row → s.settled h ≤ s.readAt h

/-- A row is put into the cache before any change of its hash since the read has returned;
and a change that met another hash than it had read finds no older row cached for it. -/
def KeyInTime (s : AuthRace θ ω) : AuthRaceStep θ ω → Prop
  | .put t => ∀ h monotonic row since readAt,
      s.lookup t = .fetched h monotonic (some row) since readAt → s.settled h ≤ readAt
  | .evict w => ∀ evicts replaced time, s.change w = .written evicts replaced time →
      replaced ≠ evicts → ∀ row, cachedRow s.cache replaced = some row →
        time ≤ s.readAt replaced
  | _ => True

/-- The hash occurs in a change under way. -/
def ChangePhase.Mentions : ChangePhase → String → Prop
  | .idle, _ => False
  | .checked _ _ evicts, h => h = evicts
  | .written evicts replaced _, h => h = evicts ∨ h = replaced

/-- The hash is in the table, or was there once and is still spoken of. -/
def KnownHash (s : AuthRace θ ω) (h : String) : Prop :=
  (∃ r ∈ s.keys.rows, r.keyHash = h) ∨ 0 < s.settled h ∨ ∃ w, (s.change w).Mentions h

/-- A new secret has a hash that no secret had before. -/
def FreshSecret (s : AuthRace θ ω) : AuthRaceStep θ ω → Prop
  | .update w suffix _ => ∀ keyId evicts, s.change w = .checked .rotate keyId evicts →
      ¬ KnownHash s (generateKey hash suffix).keyHash
  | .insert r => ¬ KnownHash s r.keyHash
  | _ => True

variable {hash} {s : AuthRace θ ω}

section Times

def LookupPhase.times : LookupPhase → Option (Lookup String)
  | .idle => none
  | .missed h _ since => some ⟨h, since, none⟩
  | .fetched h _ (some _) since readAt => some ⟨h, since, some readAt⟩
  -- what was not found is never stale
  | .fetched _ _ none _ _ => none

def ChangePhase.pending : ChangePhase → Option (PendingChange String)
  | .idle => none
  | .checked _ _ _ => none
  | .written evicts replaced time => some ⟨time, fun h => h = evicts || h = replaced⟩

/-- The times of a state, for the general theory; only rows count as entries. -/
def times (s : AuthRace θ ω) : CacheTimes String θ ω where
  clock := s.clock
  settled := s.settled
  entry h := (cachedRow s.cache h).map fun _ => s.readAt h
  lookup t := (s.lookup t).times
  change w := (s.change w).pending

/-- The hashes a cache has no row for. -/
def rowless (cache : KeyCache) (h : String) : Bool :=
  (cachedRow cache h).isNone

omit [DecidableEq θ] [DecidableEq ω] in
theorem cachedRow_eq_some {cache : KeyCache} {h : String} {row : AuthRow} :
    cachedRow cache h = some row ↔ ∃ expiresAt, cache.get? h = some (expiresAt, some row) := by
  rw [cachedRow, Option.bind_eq_some_iff]
  constructor
  · intro ⟨v, hget, hrow⟩
    exact ⟨v.1, by rw [hget, ← hrow]⟩
  · intro ⟨expiresAt, hget⟩
    exact ⟨_, hget, rfl⟩

theorem cachedRow_of_subset {cache cache' : KeyCache}
    (hsub : ∀ x ∈ cache'.entries, x ∈ cache.entries) {h : String} {row : AuthRow}
    (hrow : cachedRow cache' h = some row) : cachedRow cache h = some row := by
  obtain ⟨expiresAt, hget⟩ := cachedRow_eq_some.mp hrow
  rw [OrderedDict.get?_eq_some] at hget
  exact cachedRow_eq_some.mpr ⟨expiresAt, OrderedDict.get?_eq_some.mpr (hsub _ hget)⟩

theorem cachedRow_of_store {cache : KeyCache} {h h' : String} {monotonic : Int}
    {found : Option AuthRow} {row : AuthRow} (hne : h' ≠ h)
    (hrow : cachedRow (storeKey cache h monotonic found) h' = some row) :
    cachedRow cache h' = some row := by
  obtain ⟨expiresAt, hget⟩ := cachedRow_eq_some.mp hrow
  exact cachedRow_eq_some.mpr ⟨expiresAt, OrderedDict.get?_of_assign hne hget⟩

theorem cachedRow_store_self {cache : KeyCache} (hlen : cache.entries.length ≤ keyCacheMax)
    (h : String) (monotonic : Int) (found : Option AuthRow) :
    cachedRow (storeKey cache h monotonic found) h = found := by
  rw [cachedRow, storeKey, OrderedDict.get?_assign_self hlen (by decide)]
  rfl

theorem length_storeKey_le (cache : KeyCache) (h : String) (monotonic : Int)
    (found : Option AuthRow) :
    (storeKey cache h monotonic found).entries.length ≤ keyCacheMax := by
  rw [storeKey]
  exact OrderedDict.length_assign_le

omit [DecidableEq ω] in
theorem times_goTo (t : θ) (phase : LookupPhase) : times (s.goTo t phase) =
    { times s with lookup := Function.update (times s).lookup t phase.times } := by
  ext1
  · rfl
  · rfl
  · rfl
  · exact Function.comp_update LookupPhase.times s.lookup t phase
  · rfl

omit [DecidableEq θ] in
theorem times_moveTo (w : ω) (phase : ChangePhase) : times (s.moveTo w phase) =
    { times s with change := Function.update (times s).change w phase.pending } := by
  ext1
  · rfl
  · rfl
  · rfl
  · rfl
  · exact Function.comp_update ChangePhase.pending s.change w phase

omit [DecidableEq θ] [DecidableEq ω] in
theorem times_cache {cache : KeyCache}
    (hsub : ∀ h row, cachedRow cache h = some row → cachedRow s.cache h = some row) :
    times { s with cache := cache } =
      { times s with entry := keepEntries (rowless cache) (times s).entry } := by
  ext1
  · rfl
  · rfl
  · funext h
    show (cachedRow cache h).map _ = keepEntries (rowless cache) _ h
    rw [keepEntries, rowless]
    cases hrow : cachedRow cache h with
    | none => rfl
    | some row =>
        show some (s.readAt h) = (cachedRow s.cache h).map fun _ => s.readAt h
        rw [hsub h row hrow]
        rfl
  · rfl
  · rfl

omit [DecidableEq θ] in
theorem times_moveTo_same {w : ω} {phase : ChangePhase}
    (h : phase.pending = (s.change w).pending) : times (s.moveTo w phase) = times s := by
  rw [times_moveTo, h]
  have hsame : Function.update (times s).change w (s.change w).pending = (times s).change :=
    Function.update_eq_self w (times s).change
  rw [hsame]

theorem simulated_same {s' : AuthRace θ ω} (h : times s' = times s) :
    Simulated (times s) (times s') True := by
  rw [h]
  exact .refl _

theorem simulated_probe {t : θ} (hidle : s.lookup t = .idle) (h : String) (monotonic : Int) :
    Simulated (times s) (times (probeHash s t h monotonic)) True := by
  have hsub : ∀ h' row, cachedRow (probeKeyCache s.cache h monotonic).1 h' = some row →
      cachedRow s.cache h' = some row :=
    fun _ _ hrow => cachedRow_of_subset (fun _ hx => probeKeyCache_subset hx) hrow
  rw [probeHash]
  cases hprobe : probeKeyCache s.cache h monotonic with
  | mk cache hit =>
      rw [hprobe] at hsub
      cases hit with
      | none =>
          refine ⟨.probe t h (rowless cache), ?_, Iff.rfl⟩
          simp only
          rw [times_goTo, times_cache hsub]
          rfl
      | some row =>
          refine ⟨.quit t (rowless cache), ?_, Iff.rfl⟩
          have hnone : (times s).lookup t = none := by
            show (s.lookup t).times = none
            rw [hidle]
            rfl
          have hsame : Function.update (times s).lookup t none = (times s).lookup := by
            rw [← hnone, Function.update_eq_self]
          simp only [cacheStep]
          rw [times_cache hsub, hsame]

theorem simulated_read {t : θ} {h : String} {monotonic : Int} {since : Nat}
    (hmissed : s.lookup t = .missed h monotonic since) (row : Option AuthRow) :
    Simulated (times s) (times (s.goTo t (.fetched h monotonic row since s.clock))) True := by
  cases row with
  | none =>
      refine ⟨.quit t fun _ => false, ?_, Iff.rfl⟩
      rw [times_goTo]
      rfl
  | some row =>
      refine ⟨.read t, ?_, Iff.rfl⟩
      have hlookup : (times s).lookup t = some ⟨h, since, none⟩ := by
        show (s.lookup t).times = _
        rw [hmissed]
        rfl
      simp only [cacheStep, hlookup]
      exact times_goTo t _

theorem simulated_put_none (hlen : s.cache.entries.length ≤ keyCacheMax) {t : θ}
    (h : String) (monotonic : Int) (readAt : Nat) :
    Simulated (times s) (times (putFetched s t h monotonic none readAt)) True := by
  have hself := cachedRow_store_self hlen h monotonic none
  have hother : ∀ h' row, h' ≠ h →
      cachedRow (storeKey s.cache h monotonic none) h' = some row →
      cachedRow s.cache h' = some row := fun _ _ hne hrow => cachedRow_of_store hne hrow
  rw [putFetched]
  generalize storeKey s.cache h monotonic none = cache at hself hother ⊢
  refine ⟨.quit t (rowless cache), ?_, Iff.rfl⟩
  simp only [cacheStep]
  ext1
  · rfl
  · rfl
  · funext h'
    show (cachedRow cache h').map (fun _ => Function.update s.readAt h readAt h') =
      keepEntries (rowless cache) (times s).entry h'
    rw [keepEntries, rowless]
    cases hrow : cachedRow cache h' with
    | none => rfl
    | some row =>
        have hne : h' ≠ h := by
          intro heq
          rw [heq, hself] at hrow
          cases hrow
        show some (Function.update s.readAt h readAt h') =
          (cachedRow s.cache h').map fun _ => s.readAt h'
        rw [Function.update_of_ne hne, hother h' row hne hrow]
        rfl
  · exact Function.comp_update LookupPhase.times s.lookup t .idle
  · rfl

theorem simulated_put_some (hlen : s.cache.entries.length ≤ keyCacheMax) {t : θ} {h : String}
    {monotonic : Int} {row : AuthRow} {since readAt : Nat}
    (hfetched : s.lookup t = .fetched h monotonic (some row) since readAt) :
    Simulated (times s) (times (putFetched s t h monotonic (some row) readAt))
      (s.settled h ≤ readAt) := by
  have hlookup : (times s).lookup t = some ⟨h, since, some readAt⟩ := by
    show (s.lookup t).times = _
    rw [hfetched]
    rfl
  have hself := cachedRow_store_self hlen h monotonic (some row)
  have hother : ∀ h' row', h' ≠ h →
      cachedRow (storeKey s.cache h monotonic (some row)) h' = some row' →
      cachedRow s.cache h' = some row' := fun _ _ hne hrow => cachedRow_of_store hne hrow
  rw [putFetched]
  generalize storeKey s.cache h monotonic (some row) = cache at hself hother ⊢
  refine ⟨.put t (rowless cache), ?_, ?_⟩
  · simp only [cacheStep, hlookup]
    ext1
    · rfl
    · rfl
    · funext h'
      show (cachedRow cache h').map (fun _ => Function.update s.readAt h readAt h') =
        keepEntries (rowless cache) (Function.update (times s).entry h (some readAt)) h'
      rw [keepEntries, rowless]
      cases hrow : cachedRow cache h' with
      | none => rfl
      | some row' =>
          show some (Function.update s.readAt h readAt h') =
            Function.update (times s).entry h (some readAt) h'
          by_cases hh : h' = h
          · rw [hh, Function.update_self, Function.update_self]
          · rw [Function.update_of_ne hh, Function.update_of_ne hh]
            show _ = (cachedRow s.cache h').map fun _ => s.readAt h'
            rw [hother h' row' hh hrow]
            rfl
    · exact Function.comp_update LookupPhase.times s.lookup t .idle
    · rfl
  · rw [InTime]
    constructor
    · intro hin
      apply hin h since readAt hlookup
      rw [rowless, hself]
      rfl
    · intro hle h' since' time hl _
      rw [hlookup] at hl
      cases hl
      exact hle

theorem simulated_update {w : ω} {change : KeyChange} {keyId evicts : String}
    (hchecked : s.change w = .checked change keyId evicts) (suffix : String) (now : Int) :
    Simulated (times s) (times (updateKey hash s w change keyId evicts suffix now)) True := by
  rw [updateKey]
  cases changedTable hash s.keys change keyId suffix now with
  | none =>
      apply simulated_same
      apply times_moveTo_same
      rw [hchecked]
      rfl
  | some keys =>
      refine ⟨.commit (fun h => h = evicts || h = hashNow s.keys keyId evicts) (some w), ?_,
        Iff.rfl⟩
      exact times_moveTo w _

/-- The change drops the hash that it has read; what else it replaced may stay. -/
theorem simulated_evict {w : ω} {evicts replaced : String} {time : Nat}
    (hwritten : s.change w = .written evicts replaced time) :
    Simulated (times s) (times (evictHash s w evicts replaced time))
      (replaced ≠ evicts → ∀ row, cachedRow s.cache replaced = some row →
        time ≤ s.readAt replaced) := by
  have hchange : (times s).change w = some ⟨time, fun h => h = evicts || h = replaced⟩ := by
    show (s.change w).pending = _
    rw [hwritten]
    rfl
  refine ⟨.settle w fun h => h = evicts, ?_, ?_⟩
  · simp only [cacheStep, hchange]
    ext1
    · rfl
    · rfl
    · funext h
      show (cachedRow (invalidateKeyCache s.cache evicts) h).map (fun _ => s.readAt h) =
        keepEntries (fun h => h = evicts) (times s).entry h
      rw [keepEntries, cachedRow, invalidateKeyCache, OrderedDict.get?_discard]
      by_cases hh : h = evicts
      · simp [hh]
      · simp [hh, times, cachedRow]
    · rfl
    · exact Function.comp_update ChangePhase.pending s.change w .idle
  · rw [InTime]
    constructor
    · intro hin hne row hrow
      apply hin _ hchange replaced (s.readAt replaced)
      · simp
      · exact decide_eq_false hne
      · show (cachedRow s.cache replaced).map _ = _
        rw [hrow]
        rfl
    · intro hfree p hp h time' hchanged hkeep hentry
      rw [hchange] at hp
      cases hp
      have hne : h ≠ evicts := of_decide_eq_false hkeep
      have heq : h = replaced := by
        cases Bool.or_eq_true_iff.mp hchanged with
        | inl hevicts => exact absurd (of_decide_eq_true hevicts) hne
        | inr hreplaced => exact of_decide_eq_true hreplaced
      subst heq
      obtain ⟨row, hrow, htime⟩ := Option.map_eq_some_iff.mp hentry
      rw [← htime]
      exact hfree hne row hrow

variable (hash) in
theorem authRaceStep_simulated (hlen : s.cache.entries.length ≤ keyCacheMax)
    (a : AuthRaceStep θ ω) :
    Simulated (times s) (times (authRaceStep hash s a)) (KeyInTime s a) := by
  cases a with
  | probe t token monotonic =>
      rw [authRaceStep]
      cases hlookup : s.lookup t with
      | idle => exact simulated_probe hlookup (hash token) monotonic
      | missed h m since => exact .refl _
      | fetched h m row since readAt => exact .refl _
  | read t now dbDown =>
      rw [authRaceStep]
      cases hlookup : s.lookup t with
      | idle => exact .refl _
      | missed h m since => exact simulated_read hlookup _
      | fetched h m row since readAt => exact .refl _
  | put t =>
      rw [authRaceStep, KeyInTime]
      cases hlookup : s.lookup t with
      | idle => exact ⟨.skip, rfl, iff_of_true trivial fun _ _ _ _ _ h => by cases h⟩
      | missed h m since => exact ⟨.skip, rfl, iff_of_true trivial fun _ _ _ _ _ h => by cases h⟩
      | fetched h m found since readAt =>
          cases found with
          | none =>
              obtain ⟨c, hc, hin⟩ := simulated_put_none hlen (t := t) h m readAt
              exact ⟨c, hc, hin.trans (iff_of_true trivial fun _ _ _ _ _ h => by cases h)⟩
          | some row =>
              obtain ⟨c, hc, hin⟩ := simulated_put_some hlen hlookup
              refine ⟨c, hc, hin.trans ?_⟩
              constructor
              · intro hle h' m' row' since' readAt' heq
                cases heq
                exact hle
              · intro hle
                exact hle h m row since readAt rfl
  | check w change keyId tenantId projectId =>
      rw [authRaceStep]
      cases hchange : s.change w with
      | checked change' keyId' evicts => exact .refl _
      | written evicts replaced time => exact .refl _
      | idle =>
          apply simulated_same
          simp only [checkKey]
          cases s.keys.fetch keyId tenantId projectId with
          | none => rfl
          | some r =>
              by_cases hrevoked : r.revokedAt.isSome = true
              · simp only [if_pos hrevoked]
              · simp only [if_neg hrevoked]
                apply times_moveTo_same
                rw [hchange]
                rfl
  | update w suffix now =>
      rw [authRaceStep]
      cases hchange : s.change w with
      | idle => exact .refl _
      | checked change keyId evicts => exact simulated_update hchange suffix now
      | written evicts replaced time => exact .refl _
  | evict w =>
      rw [authRaceStep, KeyInTime]
      cases hchange : s.change w with
      | idle => exact ⟨.skip, rfl, iff_of_true trivial fun _ _ _ h => by cases h⟩
      | checked change keyId evicts =>
          exact ⟨.skip, rfl, iff_of_true trivial fun _ _ _ h => by cases h⟩
      | written evicts replaced time =>
          obtain ⟨c, hc, hin⟩ := simulated_evict hchange
          refine ⟨c, hc, hin.trans ?_⟩
          constructor
          · intro hfree evicts' replaced' time' heq
            cases heq
            exact hfree
          · intro hfree
            exact hfree evicts replaced time rfl
  | insert r =>
      rw [authRaceStep]
      cases s.keys.insert r with
      | none => exact .refl _
      | some keys => exact ⟨.commit (fun _ => false) none, rfl, Iff.rfl⟩

end Times

section Ended

/-- A change of the hash was committed at this time, the newest that has returned or one
that is still under way. -/
def EndedBy (s : AuthRace θ ω) (h : String) (time : Nat) : Prop :=
  (0 < s.settled h ∧ s.settled h = time) ∨
    ∃ w evicts replaced, s.change w = .written evicts replaced time ∧ (h = evicts ∨ h = replaced)

/-- A hash that a change has ended is dead in the table, and whatever was read of it was
read before. -/
structure Ending (s : AuthRace θ ω) : Prop where
  bounded : s.cache.entries.length ≤ keyCacheMax
  dead : ∀ h time, EndedBy s h time → ∀ r ∈ s.keys.rows, r.keyHash = h → r.revokedAt ≠ none
  cached : ∀ h time, EndedBy s h time → ∀ row, cachedRow s.cache h = some row →
    s.readAt h < time
  missed : ∀ t h monotonic since, s.lookup t = .missed h monotonic since → 0 < since →
    0 < s.settled h
  fetched : ∀ t h monotonic row since readAt,
    s.lookup t = .fetched h monotonic (some row) since readAt →
      since = 0 ∧ ∀ time, EndedBy s h time → readAt < time
  checked : ∀ w change keyId evicts, s.change w = .checked change keyId evicts →
    ∀ r ∈ s.keys.rows, r.keyHash = evicts → r.id = keyId

omit [DecidableEq θ] [DecidableEq ω] in
theorem EndedBy.known {h : String} {time : Nat} (hended : EndedBy s h time) : KnownHash s h := by
  cases hended with
  | inl hsettled => exact .inr (.inl hsettled.1)
  | inr hchange =>
      obtain ⟨w, evicts, replaced, hwritten, hh⟩ := hchange
      refine .inr (.inr ⟨w, ?_⟩)
      rw [hwritten]
      exact hh

omit [DecidableEq θ] [DecidableEq ω] in
theorem endedBy_congr {s' : AuthRace θ ω} (hsettled : s'.settled = s.settled)
    (hchange : s'.change = s.change) {h : String} {time : Nat} :
    EndedBy s' h time ↔ EndedBy s h time := by
  rw [EndedBy, EndedBy, hsettled, hchange]

omit [DecidableEq ω] in
theorem goTo_lookup {t t' : θ} {phase phase' : LookupPhase}
    (h : (s.goTo t phase).lookup t' = phase') : phase' = phase ∨ s.lookup t' = phase' := by
  change Function.update s.lookup t phase t' = phase' at h
  by_cases ht : t' = t
  · rw [ht, Function.update_self] at h
    exact .inl h.symm
  · rw [Function.update_of_ne ht] at h
    exact .inr h

omit [DecidableEq θ] in
theorem moveTo_change {w w' : ω} {phase phase' : ChangePhase}
    (h : (s.moveTo w phase).change w' = phase') : phase' = phase ∨ s.change w' = phase' := by
  change Function.update s.change w phase w' = phase' at h
  by_cases hw : w' = w
  · rw [hw, Function.update_self] at h
    exact .inl h.symm
  · rw [Function.update_of_ne hw] at h
    exact .inr h

namespace Ending

omit [DecidableEq ω] in
theorem goTo (h : Ending s) {t : θ} {phase : LookupPhase}
    (hmissed : ∀ k monotonic since, phase = .missed k monotonic since → 0 < since →
      0 < s.settled k)
    (hfetched : ∀ k monotonic row since readAt,
      phase = .fetched k monotonic (some row) since readAt →
        since = 0 ∧ ∀ time, EndedBy s k time → readAt < time) :
    Ending (s.goTo t phase) where
  bounded := h.bounded
  dead := h.dead
  cached := h.cached
  missed t' k monotonic since ht := by
    cases goTo_lookup ht with
    | inl hphase => exact hmissed k monotonic since hphase.symm
    | inr hold => exact h.missed t' k monotonic since hold
  fetched t' k monotonic row since readAt ht := by
    cases goTo_lookup ht with
    | inl hphase => exact hfetched k monotonic row since readAt hphase.symm
    | inr hold => exact h.fetched t' k monotonic row since readAt hold
  checked := h.checked

omit [DecidableEq ω] in
theorem goTo_idle (h : Ending s) (t : θ) : Ending (s.goTo t .idle) := by
  apply h.goTo
  · intro k monotonic since heq
    cases heq
  · intro k monotonic row since readAt heq
    cases heq

omit [DecidableEq θ] in
theorem moveTo (h : Ending s) {w : ω} {phase : ChangePhase}
    (hphase : ∀ evicts replaced time, phase ≠ .written evicts replaced time)
    (hchecked : ∀ change keyId evicts, phase = .checked change keyId evicts →
      ∀ r ∈ s.keys.rows, r.keyHash = evicts → r.id = keyId) :
    Ending (s.moveTo w phase) := by
  have hended : ∀ k time, EndedBy (s.moveTo w phase) k time → EndedBy s k time := by
    intro k time hk
    cases hk with
    | inl hsettled => exact .inl hsettled
    | inr hchange =>
        obtain ⟨w', evicts, replaced, hwritten, hh⟩ := hchange
        cases moveTo_change hwritten with
        | inl heq => exact absurd heq.symm (hphase evicts replaced time)
        | inr hold => exact .inr ⟨w', evicts, replaced, hold, hh⟩
  refine ⟨h.bounded, ?_, ?_, h.missed, ?_, ?_⟩
  · intro k time hk
    exact h.dead k time (hended k time hk)
  · intro k time hk
    exact h.cached k time (hended k time hk)
  · intro t k monotonic row since readAt ht
    obtain ⟨hsince, hread⟩ := h.fetched t k monotonic row since readAt ht
    exact ⟨hsince, fun time hk => hread time (hended k time hk)⟩
  · intro w' change keyId evicts hw
    cases moveTo_change hw with
    | inl heq => exact hchecked change keyId evicts heq.symm
    | inr hold => exact h.checked w' change keyId evicts hold

omit [DecidableEq θ] [DecidableEq ω] in
theorem of_subset (h : Ending s) {cache : KeyCache}
    (hsub : ∀ x ∈ cache.entries, x ∈ s.cache.entries) : Ending { s with cache := cache } where
  bounded := (OrderedDict.length_le_of_subset hsub).trans h.bounded
  dead := h.dead
  cached k time hk row hrow := h.cached k time hk row (cachedRow_of_subset hsub hrow)
  missed := h.missed
  fetched := h.fetched
  checked := h.checked

omit [DecidableEq ω] in
/-- What is in the table and not revoked was ended by no change. -/
theorem read (h : Ending s) {t : θ} {k : String} {monotonic : Int} {since : Nat}
    (hmissed : s.lookup t = .missed k monotonic since) {found : Option AuthRow}
    (hfound : ∀ row, found = some row →
      ∃ r ∈ s.keys.rows, r.keyHash = k ∧ r.revokedAt = none) :
    Ending (s.goTo t (.fetched k monotonic found since s.clock)) := by
  apply h.goTo
  · intro k' monotonic' since' heq
    cases heq
  · intro k' monotonic' row since' readAt heq
    cases heq
    obtain ⟨r, hr, hhash, hlive⟩ := hfound row rfl
    have hnone : ∀ time, ¬ EndedBy s k time :=
      fun time hk => h.dead k time hk r hr hhash hlive
    refine ⟨?_, fun time hk => absurd hk (hnone time)⟩
    by_contra hsince
    have hsettled := h.missed t k monotonic since hmissed (by omega)
    exact hnone _ (.inl ⟨hsettled, rfl⟩)

omit [DecidableEq θ] [DecidableEq ω] in
/-- The cache and its history may be replaced by what was read before any change ended it. -/
theorem recache (h : Ending s) {cache : KeyCache} {readAt : String → Nat}
    (hlen : cache.entries.length ≤ keyCacheMax)
    (hcached : ∀ k time, EndedBy s k time → ∀ row, cachedRow cache k = some row →
      readAt k < time) :
    Ending { s with cache := cache, readAt := readAt } where
  bounded := hlen
  dead := h.dead
  cached := hcached
  missed := h.missed
  fetched := h.fetched
  checked := h.checked

omit [DecidableEq ω] in
theorem put (h : Ending s) {t : θ} {k : String} {monotonic : Int} {found : Option AuthRow}
    {since readAt : Nat} (hfetched : s.lookup t = .fetched k monotonic found since readAt) :
    Ending (putFetched s t k monotonic found readAt) := by
  have hself := cachedRow_store_self h.bounded k monotonic found
  have hother : ∀ k' row, k' ≠ k → cachedRow (storeKey s.cache k monotonic found) k' = some row →
      cachedRow s.cache k' = some row := fun _ _ hne hrow => cachedRow_of_store hne hrow
  apply (h.goTo_idle t).recache (length_storeKey_le s.cache k monotonic found)
  intro k' time hk row hrow
  replace hk : EndedBy s k' time := (endedBy_congr rfl rfl).mp hk
  by_cases hkk : k' = k
  · rw [hkk] at hk hrow ⊢
    rw [hself] at hrow
    rw [hrow] at hfetched
    rw [Function.update_self]
    exact (h.fetched t k monotonic row since readAt hfetched).2 time hk
  · rw [Function.update_of_ne hkk]
    exact h.cached k' time hk row (hother k' row hkk hrow)

omit [DecidableEq θ] in
theorem evict (h : Ending s) {w : ω} {evicts replaced : String} {time : Nat}
    (hwritten : s.change w = .written evicts replaced time) :
    Ending (evictHash s w evicts replaced time) := by
  have hidle : Ending (s.moveTo w .idle) := by
    apply h.moveTo
    · intro evicts' replaced' time' heq
      cases heq
    · intro change keyId evicts' heq
      cases heq
  have hended : ∀ k time', EndedBy (evictHash s w evicts replaced time) k time' →
      EndedBy s k time' := by
    intro k time' hk
    cases hk with
    | inr hchange =>
        obtain ⟨w', evicts', replaced', hwritten', hh⟩ := hchange
        cases moveTo_change hwritten' with
        | inl heq => cases heq
        | inr hold => exact .inr ⟨w', evicts', replaced', hold, hh⟩
    | inl hsettled =>
        obtain ⟨hpos, heq⟩ := hsettled
        simp only [evictHash, Bool.or_eq_true, decide_eq_true_eq] at hpos heq
        by_cases hh : k = evicts ∨ k = replaced
        · rw [if_pos hh] at hpos heq
          by_cases hle : s.settled k ≤ time
          · rw [Nat.max_eq_right hle] at heq
            rw [← heq]
            exact .inr ⟨w, evicts, replaced, hwritten, hh⟩
          · rw [Nat.max_eq_left (by omega)] at hpos heq
            exact .inl ⟨hpos, heq⟩
        · rw [if_neg hh] at hpos heq
          exact .inl ⟨hpos, heq⟩
  have hsub : ∀ x ∈ (invalidateKeyCache s.cache evicts).entries, x ∈ s.cache.entries :=
    fun x hx => (OrderedDict.mem_discard.mp hx).1
  have hnext := h.of_subset hsub
  refine ⟨hnext.bounded, ?_, ?_, ?_, ?_, hidle.checked⟩
  · intro k time' hk
    exact h.dead k time' (hended k time' hk)
  · intro k time' hk
    exact hnext.cached k time' (hended k time' hk)
  · intro t k monotonic since ht hpos
    have hsettled := h.missed t k monotonic since ht hpos
    simp only [evictHash]
    split
    · omega
    · exact hsettled
  · intro t k monotonic row since readAt ht
    obtain ⟨hsince, hread⟩ := h.fetched t k monotonic row since readAt ht
    exact ⟨hsince, fun time' hk => hread time' (hended k time' hk)⟩

end Ending

theorem mem_changedTable {keys keys' : KeyTable} {change : KeyChange} {keyId suffix : String}
    {now : Int} (h : changedTable hash keys change keyId suffix now = some keys') {r : ApiKey}
    (hr : r ∈ keys'.rows) :
    (r ∈ keys.rows ∧ r.id ≠ keyId) ∨
    (r.id = keyId ∧ r.revokedAt ≠ none ∧ ∃ x ∈ keys.rows, x.id = keyId ∧ r.keyHash = x.keyHash) ∨
    (r.id = keyId ∧ change = .rotate ∧ r.keyHash = (generateKey hash suffix).keyHash) := by
  cases change with
  | revoke =>
      cases h
      obtain ⟨x, hx, heq⟩ := KeyTable.mem_revoke.mp hr
      by_cases hid : x.id = keyId
      · rw [if_pos hid] at heq
        rw [heq]
        exact .inr (.inl ⟨hid, by simp, x, hx, hid, rfl⟩)
      · rw [if_neg hid] at heq
        rw [heq]
        exact .inl ⟨hx, hid⟩
  | rotate =>
      obtain ⟨x, hx, heq⟩ := (KeyTable.mem_rotate h).mp hr
      by_cases hid : x.id = keyId
      · rw [if_pos hid] at heq
        rw [heq]
        exact .inr (.inr ⟨hid, rfl, rfl⟩)
      · rw [if_neg hid] at heq
        rw [heq]
        exact .inl ⟨hx, hid⟩

theorem hashNow_eq {keys : KeyTable} {keyId evicts : String} {r : ApiKey} (hr : r ∈ keys.rows)
    (h : r.keyHash = hashNow keys keyId evicts) : r.id = keyId ∨ r.keyHash = evicts := by
  rw [hashNow] at h
  cases hrow : keys.row? keyId with
  | none =>
      rw [hrow] at h
      exact .inr h
  | some x =>
      rw [hrow] at h
      obtain ⟨hx, hid⟩ := Table.row?_eq_some.mp hrow
      rw [keys.eq_of_hash hr hx h]
      exact .inl hid

theorem hashNow_cases (keys : KeyTable) (keyId evicts : String) :
    hashNow keys keyId evicts = evicts ∨
      ∃ r ∈ keys.rows, r.keyHash = hashNow keys keyId evicts := by
  rw [hashNow]
  cases hrow : keys.row? keyId with
  | none => exact .inl rfl
  | some x => exact .inr ⟨x, (Table.row?_eq_some.mp hrow).1, rfl⟩

omit [DecidableEq θ] [DecidableEq ω] in
theorem readAt_le_of_cached (hdated : Dated (times s)) {k : String} {row : AuthRow}
    (hrow : cachedRow s.cache k = some row) : s.readAt k ≤ s.clock := by
  apply hdated.entry k
  show (cachedRow s.cache k).map _ = _
  rw [hrow]
  rfl

omit [DecidableEq θ] [DecidableEq ω] in
theorem readAt_le_of_fetched (hdated : Dated (times s)) {t : θ} {k : String} {monotonic : Int}
    {row : AuthRow} {since readAt : Nat}
    (ht : s.lookup t = .fetched k monotonic (some row) since readAt) : readAt ≤ s.clock := by
  have hlookup : (times s).lookup t = some ⟨k, since, some readAt⟩ := by
    show (s.lookup t).times = _
    rw [ht]
    rfl
  exact (hdated.readAt t _ readAt hlookup rfl).2

omit [DecidableEq θ] in
theorem endedBy_written {keys : KeyTable} {w : ω} {evicts replaced k : String} {now time : Nat}
    (hk : EndedBy ((s.write keys).moveTo w (.written evicts replaced now)) k time) :
    EndedBy s k time ∨ time = now ∧ (k = evicts ∨ k = replaced) := by
  cases hk with
  | inl hsettled => exact .inl (.inl hsettled)
  | inr hchange =>
      obtain ⟨w', evicts', replaced', hwritten, hh⟩ := hchange
      cases moveTo_change hwritten with
      | inl heq =>
          cases heq
          exact .inr ⟨rfl, hh⟩
      | inr hold => exact .inl (.inr ⟨w', evicts', replaced', hold, hh⟩)

omit [DecidableEq θ] [DecidableEq ω] in
theorem known_written {w : ω} {change : KeyChange} {keyId evicts k : String}
    (hchecked : s.change w = .checked change keyId evicts)
    (hk : k = evicts ∨ k = hashNow s.keys keyId evicts) : KnownHash s k := by
  have hevicts : KnownHash s evicts := .inr (.inr ⟨w, by rw [hchecked]; rfl⟩)
  cases hk with
  | inl heq =>
      rw [heq]
      exact hevicts
  | inr heq =>
      rw [heq]
      cases hashNow_cases s.keys keyId evicts with
      | inl hsame => rwa [hsame]
      | inr hrow => exact .inl hrow

namespace Ending

omit [DecidableEq θ] [DecidableEq ω] in
theorem id_of_written (h : Ending s) {w : ω} {change : KeyChange} {keyId evicts : String}
    (hchecked : s.change w = .checked change keyId evicts) {r : ApiKey} (hr : r ∈ s.keys.rows)
    (hk : r.keyHash = evicts ∨ r.keyHash = hashNow s.keys keyId evicts) : r.id = keyId := by
  cases hk with
  | inl heq => exact h.checked w change keyId evicts hchecked r hr heq
  | inr heq =>
      cases hashNow_eq hr heq with
      | inl hid => exact hid
      | inr hread => exact h.checked w change keyId evicts hchecked r hr hread

omit [DecidableEq θ] in
theorem update (h : Ending s) (hdated : Dated (times s)) {w : ω} {change : KeyChange}
    {keyId evicts suffix : String} {now : Int}
    (hchecked : s.change w = .checked change keyId evicts)
    (hfresh : change = .rotate → ¬ KnownHash s (generateKey hash suffix).keyHash) :
    Ending (updateKey hash s w change keyId evicts suffix now) := by
  rw [updateKey]
  cases hkeys : changedTable hash s.keys change keyId suffix now with
  | none =>
      apply h.moveTo
      · intro evicts' replaced' time' heq
        cases heq
      · intro change' keyId' evicts' heq
        cases heq
  | some keys =>
      simp only
      refine ⟨h.bounded, ?_, ?_, h.missed, ?_, ?_⟩
      · intro k time hk r hr hhash
        cases mem_changedTable hkeys hr with
        | inl hother =>
            cases endedBy_written hk with
            | inl hold => exact h.dead k time hold r hother.1 hhash
            | inr hnew =>
                exact absurd (h.id_of_written hchecked hother.1 (hhash.symm ▸ hnew.2)) hother.2
        | inr hchanged =>
            cases hchanged with
            | inl hrevoked => exact hrevoked.2.1
            | inr hrotated =>
                have hknown : KnownHash s k := by
                  cases endedBy_written hk with
                  | inl hold => exact hold.known
                  | inr hnew => exact known_written hchecked hnew.2
                rw [← hhash, hrotated.2.2] at hknown
                exact absurd hknown (hfresh hrotated.2.1)
      · intro k time hk row hrow
        cases endedBy_written hk with
        | inl hold => exact h.cached k time hold row hrow
        | inr hnew =>
            rw [hnew.1]
            exact Nat.lt_succ_of_le (readAt_le_of_cached hdated hrow)
      · intro t k monotonic row since readAt ht
        obtain ⟨hsince, hread⟩ := h.fetched t k monotonic row since readAt ht
        refine ⟨hsince, ?_⟩
        intro time hk
        cases endedBy_written hk with
        | inl hold => exact hread time hold
        | inr hnew =>
            rw [hnew.1]
            exact Nat.lt_succ_of_le (readAt_le_of_fetched hdated ht)
      · intro w' change' keyId' evicts' hw r hr hhash
        cases moveTo_change hw with
        | inl heq => cases heq
        | inr hold =>
            have hrow := h.checked w' change' keyId' evicts' hold
            cases mem_changedTable hkeys hr with
            | inl hother => exact hrow r hother.1 hhash
            | inr hchanged =>
                cases hchanged with
                | inl hrevoked =>
                    obtain ⟨hid, -, x, hx, hxid, hxhash⟩ := hrevoked
                    rw [hid, ← hxid]
                    exact hrow x hx (hxhash.symm.trans hhash)
                | inr hrotated =>
                    refine absurd (.inr (.inr ⟨w', ?_⟩)) (hfresh hrotated.2.1)
                    change s.change w' = _ at hold
                    rw [hold, ← hrotated.2.2]
                    exact hhash

omit [DecidableEq θ] [DecidableEq ω] in
theorem insert (h : Ending s) {r : ApiKey} {keys : KeyTable}
    (hinsert : s.keys.insert r = some keys) (hfresh : ¬ KnownHash s r.keyHash) :
    Ending (s.write keys) := by
  refine ⟨h.bounded, ?_, h.cached, h.missed, h.fetched, ?_⟩
  · intro k time hk x hx hhash
    cases (KeyTable.mem_insert hinsert).mp hx with
    | inl hold => exact h.dead k time hk x hold hhash
    | inr hnew =>
        rw [← hhash, hnew] at hk
        have hended : EndedBy s r.keyHash time := hk
        exact absurd hended.known hfresh
  · intro w change keyId evicts hw x hx hhash
    cases (KeyTable.mem_insert hinsert).mp hx with
    | inl hold => exact h.checked w change keyId evicts hw x hold hhash
    | inr hnew =>
        refine absurd (.inr (.inr ⟨w, ?_⟩)) hfresh
        change s.change w = _ at hw
        rw [hw, ← hnew]
        exact hhash

theorem step (h : Ending s) (hdated : Dated (times s)) {a : AuthRaceStep θ ω}
    (hfresh : FreshSecret hash s a) : Ending (authRaceStep hash s a) := by
  cases a with
  | probe t token monotonic =>
      rw [authRaceStep]
      cases s.lookup t with
      | missed k m since => exact h
      | fetched k m row since readAt => exact h
      | idle =>
          simp only [probeHash]
          have hsub : ∀ x ∈ (probeKeyCache s.cache (hash token) monotonic).1.entries,
              x ∈ s.cache.entries := fun x hx => probeKeyCache_subset hx
          cases hprobe : probeKeyCache s.cache (hash token) monotonic with
          | mk cache hit =>
              rw [hprobe] at hsub
              cases hit with
              | some row => exact h.of_subset hsub
              | none =>
                  apply (h.of_subset hsub).goTo
                  · intro k m since heq hpos
                    cases heq
                    exact hpos
                  · intro k m row since readAt heq
                    cases heq
  | read t now dbDown =>
      rw [authRaceStep]
      cases hlookup : s.lookup t with
      | idle => exact h
      | fetched k m row since readAt => exact h
      | missed k m since =>
          apply h.read hlookup
          intro row hrow
          cases dbDown with
          | true => cases hrow
          | false =>
              obtain ⟨r, hr, hhash, hlive, -⟩ := KeyTable.lookup_eq_some.mp hrow
              exact ⟨r, hr, hhash, (live_iff.mp hlive).1⟩
  | put t =>
      rw [authRaceStep]
      cases hlookup : s.lookup t with
      | idle => exact h
      | missed k m since => exact h
      | fetched k m found since readAt => exact h.put hlookup
  | check w change keyId tenantId projectId =>
      rw [authRaceStep]
      cases s.change w with
      | checked change' keyId' evicts => exact h
      | written evicts replaced time => exact h
      | idle =>
          simp only [checkKey]
          cases hfetch : s.keys.fetch keyId tenantId projectId with
          | none => exact h
          | some r =>
              by_cases hrevoked : r.revokedAt.isSome = true
              · simp only [if_pos hrevoked]
                exact h
              · simp only [if_neg hrevoked]
                obtain ⟨hr, hid, -⟩ := KeyTable.fetch_eq_some.mp hfetch
                apply h.moveTo
                · intro evicts replaced time heq
                  cases heq
                · intro change' keyId' evicts heq x hx hhash
                  cases heq
                  rw [s.keys.eq_of_hash hx hr hhash, hid]
  | update w suffix now =>
      rw [authRaceStep]
      cases hchange : s.change w with
      | idle => exact h
      | written evicts replaced time => exact h
      | checked change keyId evicts =>
          apply h.update hdated hchange
          intro hrotate
          rw [hrotate] at hchange
          exact hfresh keyId evicts hchange
  | evict w =>
      rw [authRaceStep]
      cases hchange : s.change w with
      | idle => exact h
      | checked change keyId evicts => exact h
      | written evicts replaced time => exact h.evict hchange
  | insert r =>
      rw [authRaceStep]
      cases hinsert : s.keys.insert r with
      | none => exact h
      | some keys => exact h.insert hinsert hfresh

end Ending

omit [DecidableEq θ] [DecidableEq ω] in
theorem freshKeys_iff : FreshKeys s ↔ NoStale (times s) := by
  constructor
  · intro h k time hk
    obtain ⟨row, hrow, htime⟩ := Option.map_eq_some_iff.mp hk
    rw [← htime]
    exact h k row hrow
  · intro h k row hrow
    apply h k (s.readAt k)
    simp only [times, hrow, Option.map_some]

/-- One step leaves the cache fresh exactly when it is in time. -/
theorem freshKeys_step_iff (hlen : s.cache.entries.length ≤ keyCacheMax) (h : FreshKeys s)
    (a : AuthRaceStep θ ω) : FreshKeys (authRaceStep hash s a) ↔ KeyInTime s a := by
  rw [freshKeys_iff]
  exact (authRaceStep_simulated hash hlen a).noStale_iff (freshKeys_iff.mp h)

omit [DecidableEq θ] [DecidableEq ω] in
/-- With a fresh cache no lookup is answered with a row that a change had ended before. -/
theorem oldSecretRefused_of_fresh (hending : Ending s) (h : FreshKeys s)
    (a : AuthRaceStep θ ω) : OldSecretRefused hash s a := by
  intro x hx hsince
  cases a with
  | probe t token monotonic =>
      simp only [authAnswer] at hx
      split at hx
      · obtain ⟨found, hhit, heq⟩ := Option.map_eq_some_iff.mp hx
        subst heq
        obtain ⟨expiresAt, hget⟩ := probeKeyCache_hit hhit
        cases found with
        | none => rfl
        | some row =>
            have hrow : cachedRow s.cache (hash token) = some row :=
              cachedRow_eq_some.mpr ⟨expiresAt, hget⟩
            have hfresh := h _ row hrow
            have hended := hending.cached _ _ (.inl ⟨hsince, rfl⟩) row hrow
            omega
      · cases hx
  | put t =>
      simp only [authAnswer] at hx
      split at hx
      · rename_i k monotonic found since readAt hfetched
        cases hx
        cases found with
        | none => rfl
        | some row =>
            have hzero := (hending.fetched t k monotonic row since readAt hfetched).1
            exact absurd hsince (by simp [hzero])
      · cases hx
  | read t now dbDown => cases hx
  | check w change keyId tenantId projectId => cases hx
  | update w suffix now => cases hx
  | evict w => cases hx
  | insert r => cases hx

theorem length_authRaceStep (hash : String → String)
    (h : s.cache.entries.length ≤ keyCacheMax) (a : AuthRaceStep θ ω) :
    (authRaceStep hash s a).cache.entries.length ≤ keyCacheMax := by
  cases a with
  | probe t token monotonic =>
      rw [authRaceStep]
      cases s.lookup t with
      | missed k m since => exact h
      | fetched k m row since readAt => exact h
      | idle =>
          simp only [probeHash]
          have hle : (probeKeyCache s.cache (hash token) monotonic).1.entries.length ≤
              s.cache.entries.length :=
            OrderedDict.length_le_of_subset fun x hx => probeKeyCache_subset hx
          cases hprobe : probeKeyCache s.cache (hash token) monotonic with
          | mk cache hit =>
              rw [hprobe] at hle
              cases hit with
              | none => exact hle.trans h
              | some row => exact hle.trans h
  | read t now dbDown =>
      rw [authRaceStep]
      cases s.lookup t with
      | idle => exact h
      | missed k m since => exact h
      | fetched k m row since readAt => exact h
  | put t =>
      rw [authRaceStep]
      cases s.lookup t with
      | idle => exact h
      | missed k m since => exact h
      | fetched k m found since readAt => exact length_storeKey_le s.cache k m found
  | check w change keyId tenantId projectId =>
      rw [authRaceStep]
      cases s.change w with
      | checked change' keyId' evicts => exact h
      | written evicts replaced time => exact h
      | idle =>
          simp only [checkKey]
          cases s.keys.fetch keyId tenantId projectId with
          | none => exact h
          | some r =>
              by_cases hrevoked : r.revokedAt.isSome = true
              · simp only [if_pos hrevoked]
                exact h
              · simp only [if_neg hrevoked]
                exact h
  | update w suffix now =>
      rw [authRaceStep]
      cases s.change w with
      | idle => exact h
      | written evicts replaced time => exact h
      | checked change keyId evicts =>
          simp only [updateKey]
          cases changedTable hash s.keys change keyId suffix now with
          | none => exact h
          | some keys => exact h
  | evict w =>
      rw [authRaceStep]
      cases s.change w with
      | idle => exact h
      | checked change keyId evicts => exact h
      | written evicts replaced time =>
          have hle : (invalidateKeyCache s.cache evicts).entries.length ≤
              s.cache.entries.length :=
            OrderedDict.length_le_of_subset fun x hx => (OrderedDict.mem_discard.mp hx).1
          exact hle.trans h
  | insert r =>
      rw [authRaceStep]
      cases s.keys.insert r with
      | none => exact h
      | some keys => exact h

end Ended

end Race

theorem ending_started {θ ω : Type} (keys : KeyTable) : Ending (started keys : AuthRace θ ω) where
  bounded := Nat.zero_le _
  dead _ _ h := by
    cases h with
    | inl hsettled => exact absurd hsettled.1 (Nat.lt_irrefl 0)
    | inr hchange =>
        obtain ⟨w, evicts, replaced, hwritten, -⟩ := hchange
        cases hwritten
  cached _ _ _ _ hrow := by cases hrow
  missed _ _ _ _ h := by cases h
  fetched _ _ _ _ _ _ h := by cases h
  checked _ _ _ _ h := by cases h

/-- The cache is fresh throughout a run exactly when nothing is put into it late and no
change leaves an older row of the hash it replaced; and then, as new secrets have new
hashes, every lookup that begins after a change of its secret has returned is refused. -/
theorem revocation_effective_iff {θ ω : Type} [DecidableEq θ] [DecidableEq ω]
    (hash : String → String) (keys : KeyTable) (run : List (AuthRaceStep θ ω)) :
    (Always (authRaceStep hash) FreshKeys (started keys) run ↔
      AllSteps (authRaceStep hash) KeyInTime (started keys) run) ∧
    (AllSteps (authRaceStep hash) (FreshSecret hash) (started keys) run →
      AllSteps (authRaceStep hash) KeyInTime (started keys) run →
        AllSteps (authRaceStep hash) (OldSecretRefused hash) (started keys) run) := by
  have hfresh : FreshKeys (started keys : AuthRace θ ω) := by
    intro k row hrow
    cases hrow
  have hiff : Always (authRaceStep hash) FreshKeys (started keys) run ↔
      AllSteps (authRaceStep hash) KeyInTime (started keys) run :=
    always_iff_allSteps_of_invariant
      (I := fun s : AuthRace θ ω => s.cache.entries.length ≤ keyCacheMax)
      (fun s a h => length_authRaceStep hash h a) (fun s a hlen h => freshKeys_step_iff hlen h a)
      (Nat.zero_le _) hfresh run
  refine ⟨hiff, ?_⟩
  intro hsecret hin
  have hending : Always (authRaceStep hash) (fun s => Dated (times s) ∧ Ending s)
      (started keys) run := by
    refine always_of_allSteps ?_ ⟨dated_empty, ending_started keys⟩ hsecret
    intro s a hs hnew
    exact ⟨(authRaceStep_simulated hash hs.2.bounded a).dated hs.1, hs.2.step hs.1 hnew⟩
  have hall := ((allSteps_true (started keys) run).and_always (hiff.mpr hin)).and_always hending
  exact hall.mono fun s a hs => oldSecretRefused_of_fresh hs.1.2 hs.2.1 a

section Sample

def oneKey : KeyTable where
  rows :=
    [{ id := "key-1", tenantId := "acme", projectId := "default", name := "ci"
       keyPrefix := "engramia_sk_old...", keyHash := "old", role := .editor
       maxPatterns := none, createdAt := 0, lastUsedAt := none, revokedAt := none
       expiresAt := none }]
  unique := List.nodup_singleton _
  hashes := List.nodup_singleton _

/-- A lookup has read the row when the key is revoked; it fills the cache afterwards. -/
def latePut : List (AuthRaceStep Bool Unit) :=
  [.probe true "old" 0, .read true 0 false, .check () .revoke "key-1" "acme" "default",
    .update () "" 0, .evict (), .put true, .probe false "old" 1]

/-- The revoked key still authenticates. -/
theorem revoked_key_accepted :
    ¬ AllSteps (authRaceStep id) (OldSecretRefused id) (started oneKey) latePut := by
  decide +kernel

end Sample

end Engramia.Keys
