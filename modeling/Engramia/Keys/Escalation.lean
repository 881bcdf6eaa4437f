import Engramia.Keys.Routes
import Engramia.Library.Run

/-!
What a caller can come to hold. It starts with keys of one role, and every secret that a
request returns to it may be used for the next. A creation is bounded by the caller's
role; a rotation returns a secret of the role of the key it names.
-/
namespace Engramia.Keys
open Engramia.Library

structure KeyHolder where
  api : KeyApi
  /-- The secrets it was given to begin with. -/
  own : List String
  /-- The secrets returned to it. -/
  issued : List String

def KeyHolder.holds (s : KeyHolder) (token : String) : Prop :=
  token ∈ s.own ∨ token ∈ s.issued

instance (s : KeyHolder) (token : String) : Decidable (s.holds token) :=
  inferInstanceAs (Decidable (_ ∨ _))

section Holder
variable (hash : String → String) (timestamptz : String → Option Int)

def secretOf : Except HttpError KeyReply → Option String
  | .ok reply => reply.secret
  | .error _ => none

/-- A request with a key that the caller holds; no other is its own. -/
def holderStep (s : KeyHolder) (q : KeyRequest) : KeyHolder :=
  if s.holds q.auth.token then
    let result := handle hash timestamptz s.api q
    { s with api := result.1, issued := s.issued ++ (secretOf result.2).toList }
  else s

/-- No secret returned to the caller ever authenticates with a role above those that its
own role may assign. -/
def NoEscalation (r : Role) (s : KeyHolder) : Prop :=
  ∀ k ∈ s.issued, ∀ c : AuthCall, c.token = k → ∀ row ∈ (authenticate hash s.api c).2,
    roleRank row.role ≤ roleRank (maxAssignable r)

/-- The key that a rotation request goes through on. -/
def rotationTarget (s : KeyApi) (q : KeyRequest) : Option ApiKey :=
  match q.op with
  | .rotate keyId suffix =>
      match requireKey hash "keys:rotate" s q.auth with
      | (s, .ok ctx) => (rotation s ctx keyId (generateKey hash suffix)).map Prod.fst
      | (_, .error _) => none
  | _ => none

/-- Rotations go through only on keys that have expired or that the caller could have
created itself. -/
def RotatesWithin (r : Role) (s : KeyHolder) (q : KeyRequest) : Prop :=
  s.holds q.auth.token → ∀ x ∈ rotationTarget hash s.api q,
    x.expired (s.api.now + q.auth.elapsed) = false →
      roleRank x.role ≤ roleRank (maxAssignable r)

instance (r : Role) (s : KeyHolder) (q : KeyRequest) : Decidable (RotatesWithin hash r s q) :=
  inferInstanceAs (Decidable (s.holds q.auth.token → ∀ x ∈ rotationTarget hash s.api q,
    x.expired (s.api.now + q.auth.elapsed) = false →
      roleRank x.role ≤ roleRank (maxAssignable r)))

/-- What is cached as found is in the table. -/
def CacheMatches (s : KeyApi) : Prop :=
  ∀ h expiresAt row, s.cache.get? h = some (expiresAt, some row) →
    ∃ x ∈ s.keys.rows, x.keyHash = h ∧ x.authRow = row

/-- A caller before its first request: all its keys are of one role. -/
structure Enrolled (r : Role) (s : KeyHolder) : Prop where
  cache : CacheMatches s.api
  role : ∀ k ∈ s.own, ∀ x ∈ s.api.keys.rows, x.keyHash = hash k → x.role = r
  issued : s.issued = []

/-- The key has expired, and nothing in the cache still speaks for it. -/
def Unusable (s : KeyApi) (x : ApiKey) : Prop :=
  x.expired s.now = true ∧ ∀ expiresAt row, s.cache.get? x.keyHash ≠ some (expiresAt, some row)

/-- Whoever presents a secret with this hash has a role that satisfies `P`. -/
def Reaches (s : KeyApi) (h : String) (P : Role → Prop) : Prop :=
  ∀ x ∈ s.keys.rows, x.keyHash = h → P x.role ∨ Unusable s x

end Holder

section Authentication
variable {hash : String → String} {s s' : KeyApi} {h : String} {P Q : Role → Prop}

theorem Reaches.mono (hreach : Reaches s h P) (hPQ : ∀ r, P r → Q r) : Reaches s h Q :=
  fun x hx hhash => (hreach x hx hhash).imp_left (hPQ x.role)

theorem found_live {x : ApiKey} (hx : x ∈ s.keys.rows) {now : Int} {row : AuthRow}
    (hfound : s.keys.lookup x.keyHash now = some row) :
    x.authRow = row ∧ x.expired now = false := by
  obtain ⟨y, hy, hhash, hlive, hrow⟩ := KeyTable.lookup_eq_some.mp hfound
  have heq : y = x := s.keys.eq_of_hash hy hx hhash
  rw [heq] at hlive hrow
  exact ⟨hrow, (live_iff.mp hlive).2⟩

/-- An entry after an authentication was there before, or is what the database has just
found. -/
theorem authenticate_cached {c : AuthCall} {expiresAt : Int} {row : AuthRow}
    (hget : (authenticate hash s c).1.cache.get? h = some (expiresAt, some row)) :
    s.cache.get? h = some (expiresAt, some row) ∨
      h = hash c.token ∧ s.keys.lookup (hash c.token) (s.now + c.elapsed) = some row := by
  have hold : ∀ e v, (probeKeyCache s.cache (hash c.token) c.monotonic).1.get? h = some (e, v) →
      s.cache.get? h = some (e, v) := by
    intro e v he
    rw [OrderedDict.get?_eq_some] at he ⊢
    exact probeKeyCache_subset he
  simp only [authenticate, lookupKeyCached] at hget
  cases hprobe : probeKeyCache s.cache (hash c.token) c.monotonic with
  | mk cache hit =>
      rw [hprobe] at hget hold
      cases hit with
      | some found => exact .inl (hold _ _ hget)
      | none =>
          by_cases hh : h = hash c.token
          · subst hh
            have heq := OrderedDict.eq_of_get?_assign hget
            cases hdown : c.dbDown with
            | true =>
                simp only [hdown, if_true, Prod.mk.injEq] at heq
                cases heq.2
            | false =>
                simp only [hdown, Bool.false_eq_true, if_false, Prod.mk.injEq] at heq
                exact .inr ⟨rfl, heq.2.symm⟩
          · exact .inl (hold _ _ (OrderedDict.get?_of_assign hh hget))

theorem authenticate_answer {c : AuthCall} {row : AuthRow}
    (hfound : (authenticate hash s c).2 = some row) :
    (∃ expiresAt, s.cache.get? (hash c.token) = some (expiresAt, some row)) ∨
      s.keys.lookup (hash c.token) (s.now + c.elapsed) = some row := by
  simp only [authenticate, lookupKeyCached] at hfound
  cases hprobe : probeKeyCache s.cache (hash c.token) c.monotonic with
  | mk cache hit =>
      rw [hprobe] at hfound
      cases hit with
      | some found =>
          have hhit : (probeKeyCache s.cache (hash c.token) c.monotonic).2 = some found := by
            rw [hprobe]
          simp only at hfound
          rw [hfound] at hhit
          exact .inl (probeKeyCache_hit hhit)
      | none =>
          cases hdown : c.dbDown with
          | true =>
              simp only [hdown, if_true] at hfound
              cases hfound
          | false =>
              simp only [hdown, Bool.false_eq_true, if_false] at hfound
              exact .inr hfound

theorem CacheMatches.afterAuth (hmatch : CacheMatches s) (c : AuthCall) :
    CacheMatches (authenticate hash s c).1 := by
  intro h expiresAt row hget
  cases authenticate_cached hget with
  | inl hold => exact hmatch h expiresAt row hold
  | inr hnew =>
      obtain ⟨x, hx, hhash, -, hrow⟩ := KeyTable.lookup_eq_some.mp hnew.2
      exact ⟨x, hx, hhash.trans hnew.1.symm, hrow⟩

theorem Unusable.afterAuth {x : ApiKey} (hx : x ∈ s.keys.rows) (hun : Unusable s x)
    (c : AuthCall) : Unusable (authenticate hash s c).1 x := by
  have hexpired : x.expired (s.now + c.elapsed) = true := expired_mono (by omega) hun.1
  refine ⟨hexpired, ?_⟩
  intro expiresAt row hget
  cases authenticate_cached hget with
  | inl hold => exact hun.2 expiresAt row hold
  | inr hnew =>
      rw [← hnew.1] at hnew
      rw [(found_live hx hnew.2).2] at hexpired
      cases hexpired

theorem Reaches.afterAuth (hreach : Reaches s h P) (c : AuthCall) :
    Reaches (authenticate hash s c).1 h P := by
  intro x hx hhash
  have hold : x ∈ s.keys.rows := hx
  exact (hreach x hold hhash).imp_right fun hun => hun.afterAuth hold c

theorem Reaches.answer (hmatch : CacheMatches s) {c : AuthCall}
    (hreach : Reaches s (hash c.token) P) {row : AuthRow}
    (hfound : (authenticate hash s c).2 = some row) : P row.role := by
  cases authenticate_answer hfound with
  | inl hcached =>
      obtain ⟨expiresAt, hget⟩ := hcached
      obtain ⟨x, hx, hhash, hrow⟩ := hmatch _ _ _ hget
      cases hreach x hx hhash with
      | inl hP => rwa [← hrow]
      | inr hun =>
          rw [← hhash] at hget
          exact absurd hget (hun.2 expiresAt row)
  | inr hdb =>
      obtain ⟨x, hx, hhash, hlive, hrow⟩ := KeyTable.lookup_eq_some.mp hdb
      cases hreach x hx hhash with
      | inl hP => rwa [← hrow]
      | inr hun =>
          have hexpired : x.expired (s.now + c.elapsed) = true := expired_mono (by omega) hun.1
          rw [(live_iff.mp hlive).2] at hexpired
          cases hexpired

variable (hash s) in
theorem exists_answer (token : String) {x : ApiKey} (hx : x ∈ s.keys.rows)
    (hlive : x.live s.now = true) (hhash : x.keyHash = hash token) :
    ∃ c : AuthCall, c.token = token ∧ (authenticate hash s c).2 = some x.authRow := by
  obtain ⟨monotonic, hmiss⟩ := probeKeyCache_miss s.cache (hash token)
  refine ⟨⟨token, 0, monotonic, false⟩, rfl, ?_⟩
  have hfound : s.keys.lookup (hash token) (s.now + (0 : Nat)) = some x.authRow :=
    KeyTable.lookup_eq_some.mpr ⟨x, hx, hhash, by simpa using hlive, rfl⟩
  simp only [authenticate, lookupKeyCached]
  cases hprobe : probeKeyCache s.cache (hash token) monotonic with
  | mk cache hit =>
      rw [hprobe] at hmiss
      simp only at hmiss
      subst hmiss
      exact hfound

end Authentication

/-- A role that the holder of a key of role `r` may give to a new key. -/
def Within (r ρ : Role) : Prop := roleRank ρ ≤ roleRank (maxAssignable r)

/-- A role that the caller acts in: its first one, or one it may assign. -/
def Acting (r ρ : Role) : Prop := ρ = r ∨ Within r ρ

theorem within_of_acting {r ρ ρ' : Role} (h : Acting r ρ) (hle : Within ρ ρ') : Within r ρ' := by
  cases h with
  | inl heq => rwa [← heq]
  | inr hwithin => exact hle.trans ((maxAssignable_le ρ).trans hwithin)

/-- What one operation may leave: old secrets reach no more than before, and a new one only
what the caller may assign. -/
structure GrantsWithin (hash : String → String) (r : Role) (s s' : KeyApi)
    (secret : Option String) : Prop where
  cache : CacheMatches s'
  old : ∀ h (P : Role → Prop), (∀ ρ, Within r ρ → P ρ) → Reaches s h P → Reaches s' h P
  new : ∀ k ∈ secret, Reaches s' (hash k) (Within r)

section Operations
variable {hash : String → String} {timestamptz : String → Option Int} {r : Role}
  {s s' : KeyApi} {ctx : AuthRow} {h : String} {P : Role → Prop}

theorem GrantsWithin.refused (hmatch : CacheMatches s) : GrantsWithin hash r s s none where
  cache := hmatch
  old _ _ _ hreach := hreach
  new _ hk := by cases hk

theorem discard_cached {cache : KeyCache} {k : String} {expiresAt : Int} {row : AuthRow}
    (hget : (invalidateKeyCache cache k).get? h = some (expiresAt, some row)) :
    h ≠ k ∧ cache.get? h = some (expiresAt, some row) := by
  rw [invalidateKeyCache, OrderedDict.get?_discard] at hget
  by_cases hk : h = k
  · simp [hk] at hget
  · simp only [hk, decide_false, Bool.false_eq_true, if_false] at hget
    exact ⟨hk, hget⟩

theorem GrantsWithin.create (hmatch : CacheMatches s) {x : ApiKey} {keys : KeyTable}
    (hinsert : s.keys.insert x = some keys) (hrole : Within r x.role) {k : String}
    (hk : x.keyHash = hash k) : GrantsWithin hash r s { s with keys := keys } (some k) where
  cache h expiresAt row hget := by
    obtain ⟨y, hy, hhash, hrow⟩ := hmatch h expiresAt row hget
    exact ⟨y, (KeyTable.mem_insert hinsert).mpr (.inl hy), hhash, hrow⟩
  old h P hP hreach y hy hhash := by
    cases (KeyTable.mem_insert hinsert).mp hy with
    | inl hold => exact hreach y hold hhash
    | inr hnew =>
        rw [hnew]
        exact .inl (hP _ hrole)
  new k' hk' y hy hhash := by
    cases hk'
    have hnew : x ∈ keys.rows := (KeyTable.mem_insert hinsert).mpr (.inr rfl)
    rw [keys.eq_of_hash hy hnew (hhash.trans hk.symm)]
    exact .inl hrole

theorem GrantsWithin.revoke (hmatch : CacheMatches s) (keyId hashed : String) (now : Int) :
    GrantsWithin hash r s
      { s with keys := s.keys.revoke keyId now, cache := invalidateKeyCache s.cache hashed }
      none where
  cache h expiresAt row hget := by
    obtain ⟨x, hx, hhash, hrow⟩ := hmatch h expiresAt row (discard_cached hget).2
    refine ⟨_, KeyTable.mem_revoke.mpr ⟨x, hx, rfl⟩, ?_, ?_⟩
    · split
      · exact hhash
      · exact hhash
    · split
      · exact hrow
      · exact hrow
  old h P hP hreach y hy hhash := by
    obtain ⟨x, hx, heq⟩ := KeyTable.mem_revoke.mp hy
    have hsame : y.keyHash = x.keyHash ∧ y.role = x.role ∧ y.expiresAt = x.expiresAt := by
      rw [heq]
      split
      · exact ⟨rfl, rfl, rfl⟩
      · exact ⟨rfl, rfl, rfl⟩
    obtain ⟨hsamehash, hrole, hexpires⟩ := hsame
    rw [hrole]
    refine (hreach x hx (hsamehash.symm.trans hhash)).imp_right ?_
    intro hun
    refine ⟨?_, ?_⟩
    · rw [ApiKey.expired, hexpires]
      exact hun.1
    · intro expiresAt row hget
      rw [hsamehash] at hget
      exact hun.2 expiresAt row (discard_cached hget).2
  new _ hk := by cases hk

theorem GrantsWithin.rotate (hmatch : CacheMatches s) {keyId newPrefix : String} {x : ApiKey}
    (hx : x ∈ s.keys.rows) (hid : x.id = keyId) {keys : KeyTable} {k : String}
    (hrotate : s.keys.rotate keyId (hash k) newPrefix = some keys)
    (hrole : x.expired s.now = false → Within r x.role) :
    GrantsWithin hash r s
      { s with keys := keys, cache := invalidateKeyCache s.cache x.keyHash } (some k) := by
  have hkept : ∀ y ∈ s.keys.rows, y.id ≠ keyId → y ∈ keys.rows := by
    intro y hy hne
    exact (KeyTable.mem_rotate hrotate).mpr ⟨y, hy, (if_neg hne).symm⟩
  have hmoved : x.rotated (hash k) newPrefix ∈ keys.rows :=
    (KeyTable.mem_rotate hrotate).mpr ⟨x, hx, (if_pos hid).symm⟩
  have hcases : ∀ y ∈ keys.rows, y = x.rotated (hash k) newPrefix ∨
      y ∈ s.keys.rows ∧ y.id ≠ keyId := by
    intro y hy
    obtain ⟨z, hz, heq⟩ := (KeyTable.mem_rotate hrotate).mp hy
    by_cases hzid : z.id = keyId
    · have hzx : z = x := List.inj_on_of_nodup_map s.keys.unique hz hx (hzid.trans hid.symm)
      rw [if_pos hzid, hzx] at heq
      exact .inl heq
    · rw [if_neg hzid] at heq
      rw [heq]
      exact .inr ⟨hz, hzid⟩
  have hgone : ∀ h expiresAt row,
      (invalidateKeyCache s.cache x.keyHash).get? h = some (expiresAt, some row) →
      ∃ y ∈ s.keys.rows, y.id ≠ keyId ∧ y.keyHash = h ∧ y.authRow = row := by
    intro h expiresAt row hget
    obtain ⟨hne, hget⟩ := discard_cached hget
    obtain ⟨y, hy, hhash, hrow⟩ := hmatch h expiresAt row hget
    refine ⟨y, hy, ?_, hhash, hrow⟩
    intro hyid
    have hyx : y = x := List.inj_on_of_nodup_map s.keys.unique hy hx (hyid.trans hid.symm)
    rw [hyx] at hhash
    exact hne hhash.symm
  have hreached : ∀ P : Role → Prop, (∀ ρ, Within r ρ → P ρ) →
      P (x.rotated (hash k) newPrefix).role ∨
        Unusable { s with keys := keys, cache := invalidateKeyCache s.cache x.keyHash }
          (x.rotated (hash k) newPrefix) := by
    intro P hP
    cases hexpired : x.expired s.now with
    | false => exact .inl (hP _ (hrole hexpired))
    | true =>
        refine .inr ⟨hexpired, ?_⟩
        intro expiresAt row hget
        -- the new hash would be another key's as well
        obtain ⟨y, hy, hne, hhash, -⟩ := hgone _ _ _ hget
        have heq := keys.eq_of_hash (hkept y hy hne) hmoved hhash
        rw [heq] at hne
        exact hne hid
  refine ⟨?_, ?_, ?_⟩
  · intro h expiresAt row hget
    obtain ⟨y, hy, hne, hhash, hrow⟩ := hgone h expiresAt row hget
    exact ⟨y, hkept y hy hne, hhash, hrow⟩
  · intro h P hP hreach y hy hhash
    cases hcases y hy with
    | inl heq =>
        rw [heq]
        exact hreached P hP
    | inr hold =>
        refine (hreach y hold.1 hhash).imp_right ?_
        intro hun
        exact ⟨hun.1, fun expiresAt row hget => hun.2 expiresAt row (discard_cached hget).2⟩
  · intro k' hk' y hy hhash
    cases hk'
    rw [keys.eq_of_hash hy hmoved hhash]
    exact hreached (Within r) fun _ hwithin => hwithin

variable (timestamptz) in
theorem perform_grants (hmatch : CacheMatches s) (hctx : Acting r ctx.role) (op : KeyOp)
    (hrot : ∀ keyId suffix, op = .rotate keyId suffix → ∀ x keys,
      rotation s ctx keyId (generateKey hash suffix) = some (x, keys) →
        x.expired s.now = false → Within r x.role) :
    GrantsWithin hash r s (perform hash timestamptz s ctx op).1
      (secretOf (perform hash timestamptz s ctx op).2) := by
  cases op with
  | create body suffix newId =>
      rw [perform]
      cases createKey_cases timestamptz s ctx body (generateKey hash suffix) newId with
      | inl hrefused =>
          obtain ⟨e, he⟩ := hrefused
          rw [he]
          exact .refused hmatch
      | inr hcreated =>
          obtain ⟨expiresAt, keys, response, hrank, hinsert, hkey, heq⟩ := hcreated
          rw [heq, secretOf, KeyReply.secret, hkey]
          exact .create hmatch hinsert (within_of_acting hctx hrank) rfl
  | revoke keyId =>
      rw [perform]
      cases revokeKey_cases s ctx keyId with
      | inl hrefused =>
          obtain ⟨e, he⟩ := hrefused
          rw [he]
          exact .refused hmatch
      | inr hrevoked =>
          obtain ⟨x, -, heq⟩ := hrevoked
          rw [heq]
          exact .revoke hmatch keyId x.keyHash s.now
  | rotate keyId suffix =>
      rw [perform]
      cases rotateKey_cases s ctx keyId (generateKey hash suffix) with
      | inl hrefused =>
          obtain ⟨-, e, he⟩ := hrefused
          rw [he]
          exact .refused hmatch
      | inr hrotated =>
          obtain ⟨x, keys, hrotation, heq⟩ := hrotated
          obtain ⟨hfetch, -, hkeys⟩ := rotation_eq_some hrotation
          obtain ⟨hx, hid, -⟩ := KeyTable.fetch_eq_some.mp hfetch
          rw [heq]
          exact .rotate hmatch hx hid hkeys (hrot keyId suffix rfl x keys hrotation)

end Operations

/-- The invariant of a caller of role `r` that rotates no key above its reach. -/
structure Bounded (hash : String → String) (r : Role) (s : KeyHolder) : Prop where
  cache : CacheMatches s.api
  own : ∀ k ∈ s.own, Reaches s.api (hash k) (Acting r)
  issued : ∀ k ∈ s.issued, Reaches s.api (hash k) (Within r)

section Steps
variable {hash : String → String} {timestamptz : String → Option Int} {r : Role} {s : KeyHolder}

theorem Enrolled.bounded (h : Enrolled hash r s) : Bounded hash r s where
  cache := h.cache
  own k hk x hx hhash := .inl (.inl (h.role k hk x hx hhash))
  issued k hk := by
    rw [h.issued] at hk
    cases hk

theorem Bounded.noEscalation (h : Bounded hash r s) : NoEscalation hash r s := by
  intro k hk c hc row hrow
  subst hc
  exact (h.issued c.token hk).answer h.cache hrow

theorem Bounded.acting (h : Bounded hash r s) {c : AuthCall} (hholds : s.holds c.token)
    {ctx : AuthRow} (hctx : (authenticate hash s.api c).2 = some ctx) : Acting r ctx.role := by
  cases hholds with
  | inl hown => exact (h.own c.token hown).answer h.cache hctx
  | inr hissued => exact .inr ((h.issued c.token hissued).answer h.cache hctx)

theorem Bounded.grant (h : Bounded hash r s) {s' : KeyApi} {secret : Option String}
    (hgrant : GrantsWithin hash r s.api s' secret) :
    Bounded hash r { s with api := s', issued := s.issued ++ secret.toList } where
  cache := hgrant.cache
  own k hk := hgrant.old _ _ (fun _ => .inr) (h.own k hk)
  issued k hk := by
    cases List.mem_append.mp hk with
    | inl hold => exact hgrant.old _ _ (fun _ hwithin => hwithin) (h.issued k hold)
    | inr hnew => exact hgrant.new k (Option.mem_toList.mp hnew)

theorem Bounded.afterAuth (h : Bounded hash r s) (c : AuthCall) :
    Bounded hash r { s with api := (authenticate hash s.api c).1 } where
  cache := h.cache.afterAuth c
  own k hk := (h.own k hk).afterAuth c
  issued k hk := (h.issued k hk).afterAuth c

theorem Bounded.step (h : Bounded hash r s) {q : KeyRequest} (hguard : RotatesWithin hash r s q) :
    Bounded hash r (holderStep hash timestamptz s q) := by
  rw [holderStep]
  by_cases hholds : s.holds q.auth.token
  · rw [if_pos hholds]
    have hauth := h.afterAuth q.auth
    cases handle_cases timestamptz hash s.api q with
    | inl hrefused =>
        obtain ⟨e, he⟩ := hrefused
        rw [he]
        exact hauth.grant (.refused hauth.cache)
    | inr hperform =>
        obtain ⟨ctx, hrequire, hctx, heq⟩ := hperform
        rw [heq]
        refine hauth.grant (perform_grants timestamptz hauth.cache (h.acting hholds hctx) q.op ?_)
        intro keyId suffix hop x keys hrotation hlive
        apply hguard hholds x ?_ hlive
        rw [hop, KeyOp.permission] at hrequire
        simp only [rotationTarget, hop, hrequire, hrotation, Option.map_some, Option.mem_some_iff]
  · rw [if_neg hholds]
    exact h

theorem rotationTarget_eq_some {s : KeyApi} {q : KeyRequest} {x : ApiKey}
    (h : rotationTarget hash s q = some x) :
    ∃ keyId suffix ctx keys, q.op = .rotate keyId suffix ∧
      requireKey hash "keys:rotate" s q.auth = ((authenticate hash s q.auth).1, .ok ctx) ∧
      rotation (authenticate hash s q.auth).1 ctx keyId (generateKey hash suffix) =
        some (x, keys) := by
  cases hop : q.op with
  | create body suffix newId =>
      simp only [rotationTarget, hop] at h
      cases h
  | revoke keyId =>
      simp only [rotationTarget, hop] at h
      cases h
  | rotate keyId suffix =>
      simp only [rotationTarget, hop] at h
      cases hrequire : requireKey hash "keys:rotate" s q.auth with
      | mk s' answer =>
          rw [hrequire] at h
          have hfst := requireKey_fst hash "keys:rotate" s q.auth
          rw [hrequire] at hfst
          simp only at hfst
          cases answer with
          | error e => cases h
          | ok ctx =>
              obtain ⟨⟨y, keys⟩, hrotation, heq⟩ := Option.map_eq_some_iff.mp h
              simp only at heq
              subst hfst heq
              exact ⟨keyId, suffix, ctx, keys, rfl, rfl, hrotation⟩

theorem rotatesWithin_of_noEscalation {q : KeyRequest}
    (h : NoEscalation hash r (holderStep hash timestamptz s q)) : RotatesWithin hash r s q := by
  intro hholds x hx hlive
  obtain ⟨keyId, suffix, ctx, keys, hop, hrequire, hrotation⟩ := rotationTarget_eq_some hx
  obtain ⟨hfetch, hrevoked, hkeys⟩ := rotation_eq_some hrotation
  obtain ⟨hmem, hid, -⟩ := KeyTable.fetch_eq_some.mp hfetch
  have heq : handle hash timestamptz s.api q =
      rotateKey (authenticate hash s.api q.auth).1 ctx keyId (generateKey hash suffix) := by
    rw [handle, hop, KeyOp.permission, hrequire]
    rfl
  cases rotateKey_cases (authenticate hash s.api q.auth).1 ctx keyId (generateKey hash suffix) with
  | inl hrefused =>
      rw [hrefused.1] at hrotation
      cases hrotation
  | inr hrotated =>
      obtain ⟨y, keys', hrotation', hresult⟩ := hrotated
      rw [hrotation, Option.some.injEq, Prod.mk.injEq] at hrotation'
      obtain ⟨hy, htable⟩ := hrotation'
      subst hy htable
      rw [holderStep, if_pos hholds] at h
      simp only [heq, hresult] at h
      have hmoved : x.rotated (generateKey hash suffix).keyHash
          (generateKey hash suffix).displayPrefix ∈ keys.rows :=
        (KeyTable.mem_rotate hkeys).mpr ⟨x, hmem, (if_pos hid).symm⟩
      obtain ⟨c, htoken, hanswer⟩ := exists_answer hash
        { (authenticate hash s.api q.auth).1 with
          keys := keys
          cache := invalidateKeyCache (authenticate hash s.api q.auth).1.cache x.keyHash }
        (generateKey hash suffix).fullKey hmoved (live_iff.mpr ⟨hrevoked, hlive⟩) rfl
      exact h _ (List.mem_append_right _ (List.mem_singleton_self _)) c htoken _ hanswer

end Steps

/-- No secret that a caller of role `r` is given ever authenticates above what `r` may
assign, exactly if the caller's rotations go through only on keys within that bound. -/
theorem no_escalation_iff (hash : String → String) (timestamptz : String → Option Int) (r : Role)
    (s : KeyHolder) (h : Enrolled hash r s) (run : List KeyRequest) :
    Always (holderStep hash timestamptz) (NoEscalation hash r) s run ↔
      AllSteps (holderStep hash timestamptz) (RotatesWithin hash r) s run :=
  always_iff_allSteps_of_guarded (I := Bounded hash r) (fun _ hs => hs.noEscalation)
    (fun _ _ hs hguard => hs.step hguard) (fun _ _ _ => rotatesWithin_of_noEscalation) h.bounded run

section Sample

def acmeKey (id keyHash : String) (role : Role) : ApiKey where
  id := id
  tenantId := "acme"
  projectId := "default"
  name := id
  keyPrefix := keyHash
  keyHash := keyHash
  role := role
  maxPatterns := none
  createdAt := 0
  lastUsedAt := none
  revokedAt := none
  expiresAt := none

/-- An admin beside the owner of the project. -/
def acmeAdmin : KeyHolder where
  api :=
    { keys :=
        { rows := [acmeKey "key-1" "owner-secret" .owner, acmeKey "key-2" "admin-secret" .admin]
          unique := by decide
          hashes := by decide }
      cache := .empty
      now := 0 }
  own := ["admin-secret"]
  issued := []

def callWith (token : String) : AuthCall := ⟨token, 0, 0, false⟩

theorem acmeAdmin_enrolled : Enrolled id .admin acmeAdmin where
  cache h expiresAt row hget := by cases hget
  role := by decide
  issued := rfl

def rotateEditor : List KeyRequest :=
  [⟨callWith "admin-secret",
      .create ⟨"ci", .editor, none, none, by decide, by decide⟩ "first" "key-3"⟩,
    ⟨callWith "admin-secret", .rotate "key-3" "second"⟩]

/-- An admin may rotate the editor keys that it creates. -/
theorem no_escalation_rotateEditor :
    Always (holderStep id fun _ => none) (NoEscalation id .admin) acmeAdmin rotateEditor :=
  (no_escalation_iff id (fun _ => none) .admin acmeAdmin acmeAdmin_enrolled rotateEditor).mpr
    (by decide +kernel)

/-- The admin rotates the owner's key. -/
def rotateOwner : KeyRequest := ⟨callWith "admin-secret", .rotate "key-1" "new"⟩

/-- The admin holds the owner's new secret. -/
theorem owner_secret_issued :
    ¬ Always (holderStep id fun _ => none) (NoEscalation id .admin) acmeAdmin [rotateOwner] := by
  apply not_always_of_last
  intro h
  have hrole := h "engramia_sk_new" (by decide +kernel) (callWith "engramia_sk_new") rfl
    (acmeKey "key-1" "" .owner).authRow (by decide +kernel)
  exact absurd hrole (by decide)

end Sample

end Engramia.Keys
