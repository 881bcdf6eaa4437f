import Engramia.Keys.Permissions
import Engramia.Library.KeyedTable
import Engramia.Library.OrderedDict

/-!
The `api_keys` table, the statements of the key routes, and the cache that
authentication keeps in front of it. Only the hash of a secret is stored; `hash` stands
for the SHA-256 digest throughout. Times are microseconds: `now` of the database,
`monotonic` of the process.
-/
namespace Engramia.Keys
open Engramia.Library

structure ApiKey where
  id : String
  tenantId : String
  projectId : String
  name : String
  keyPrefix : String
  keyHash : String
  role : Role
  maxPatterns : Option Int
  createdAt : Int
  lastUsedAt : Option Int
  revokedAt : Option Int
  expiresAt : Option Int
deriving DecidableEq

/-- What a lookup returns of a row. -/
structure AuthRow where
  id : String
  tenantId : String
  projectId : String
  role : Role
  maxPatterns : Option Int
deriving DecidableEq, Repr

def ApiKey.authRow (r : ApiKey) : AuthRow where
  id := r.id
  tenantId := r.tenantId
  projectId := r.projectId
  role := r.role
  maxPatterns := r.maxPatterns

/-- Not revoked, and not expired. -/
def ApiKey.live (r : ApiKey) (now : Int) : Bool :=
  r.revokedAt.isNone && r.expiresAt.all fun expiresAt => now < expiresAt

def ApiKey.expired (r : ApiKey) (now : Int) : Bool :=
  r.expiresAt.any fun expiresAt => expiresAt ≤ now

/-- The table with its two constraints: the primary key and `UNIQUE (key_hash)`. -/
structure KeyTable extends Table ApiKey.id where
  hashes : (rows.map ApiKey.keyHash).Nodup

/-- What a statement leaves, unless two rows would share a hash. -/
def KeyTable.checked (t : Table ApiKey.id) : Option KeyTable :=
  if h : (t.rows.map ApiKey.keyHash).Nodup then some ⟨t, h⟩ else none

section Statements
variable {t t' : KeyTable} {r x : ApiKey} {id h : String} {now : Int}

def KeyTable.insert (t : KeyTable) (r : ApiKey) : Option KeyTable :=
  (t.toTable.insert r).bind KeyTable.checked

def KeyTable.fetch (t : KeyTable) (id tenantId projectId : String) : Option ApiKey :=
  t.rows.find? fun r => r.id = id && r.tenantId = tenantId && r.projectId = projectId

/-- `UPDATE api_keys SET revoked_at = now() WHERE id = :id`. -/
def KeyTable.revoke (t : KeyTable) (id : String) (now : Int) : KeyTable where
  toTable := t.toTable.update (fun r => r.id = id) (fun r => { r with revokedAt := some now })
    fun _ => rfl
  hashes := by
    have hkept : ∀ r, ApiKey.keyHash (if r.id = id then { r with revokedAt := some now } else r) =
        r.keyHash := by
      intro r
      by_cases hr : r.id = id
      · rw [if_pos hr]
      · rw [if_neg hr]
    have hsame := t.hashes
    rw [← List.map_congr_left fun r _ => hkept r] at hsame
    simpa only [Table.update, updateWhere, List.map_map, Function.comp_def, decide_eq_true_eq]
      using hsame

def ApiKey.rotated (r : ApiKey) (newHash newPrefix : String) : ApiKey :=
  { r with keyHash := newHash, keyPrefix := newPrefix, lastUsedAt := none }

/-- `UPDATE api_keys SET key_hash, key_prefix, last_used_at = NULL WHERE id = :id`. -/
def KeyTable.rotate (t : KeyTable) (id newHash newPrefix : String) : Option KeyTable :=
  KeyTable.checked <| t.toTable.update (fun r => r.id = id) (fun r => r.rotated newHash newPrefix)
    fun _ => rfl

/-- `_db_lookup`. -/
def KeyTable.lookup (t : KeyTable) (h : String) (now : Int) : Option AuthRow :=
  (t.rows.find? fun r => r.keyHash = h && r.live now).map ApiKey.authRow

theorem live_iff : r.live now = true ↔ r.revokedAt = none ∧ r.expired now = false := by
  rw [ApiKey.live, ApiKey.expired, Bool.and_eq_true, Option.isNone_iff_eq_none]
  cases r.expiresAt with
  | none => simp
  | some expiresAt => simp

theorem expired_mono {now' : Int} (hle : now ≤ now') (h : r.expired now = true) :
    r.expired now' = true := by
  rw [ApiKey.expired] at h ⊢
  cases hexpires : r.expiresAt with
  | none => rw [hexpires] at h; cases h
  | some expiresAt =>
      rw [hexpires, Option.any_some, decide_eq_true_iff] at h
      rw [Option.any_some, decide_eq_true_iff]
      omega

theorem checked_eq_some {t : Table ApiKey.id} :
    KeyTable.checked t = some t' ↔ t'.toTable = t := by
  rw [KeyTable.checked]
  constructor
  · intro h
    by_cases hnodup : (t.rows.map ApiKey.keyHash).Nodup
    · rw [dif_pos hnodup, Option.some.injEq] at h
      rw [← h]
    · rw [dif_neg hnodup] at h
      cases h
  · intro h
    subst h
    rw [dif_pos t'.hashes]

theorem KeyTable.eq_of_hash (t : KeyTable) (hr : r ∈ t.rows) (hx : x ∈ t.rows)
    (h : r.keyHash = x.keyHash) : r = x :=
  List.inj_on_of_nodup_map t.hashes hr hx h

theorem KeyTable.mem_insert (h : t.insert r = some t') :
    x ∈ t'.rows ↔ x ∈ t.rows ∨ x = r := by
  obtain ⟨table, hinsert, hchecked⟩ := Option.bind_eq_some_iff.mp h
  rw [checked_eq_some.mp hchecked]
  exact Table.mem_insert hinsert

theorem KeyTable.mem_revoke :
    x ∈ (t.revoke id now).rows ↔
      ∃ r ∈ t.rows, x = if r.id = id then { r with revokedAt := some now } else r := by
  simp only [KeyTable.revoke, Table.update, mem_updateWhere, decide_eq_true_eq]
  exact exists_congr fun r => and_congr Iff.rfl eq_comm

theorem KeyTable.mem_rotate {newHash newPrefix : String}
    (h : t.rotate id newHash newPrefix = some t') :
    x ∈ t'.rows ↔
      ∃ r ∈ t.rows, x = if r.id = id then r.rotated newHash newPrefix else r := by
  rw [checked_eq_some.mp h]
  simp only [Table.update, mem_updateWhere, decide_eq_true_eq]
  exact exists_congr fun r => and_congr Iff.rfl eq_comm

theorem KeyTable.fetch_eq_some {tenantId projectId : String} :
    t.fetch id tenantId projectId = some r ↔
      r ∈ t.rows ∧ r.id = id ∧ r.tenantId = tenantId ∧ r.projectId = projectId := by
  rw [KeyTable.fetch, find?_eq_some_of_unique]
  · simp [and_assoc]
  · intro a ha b hb hka hkb
    simp only [Bool.and_eq_true, decide_eq_true_eq] at hka hkb
    exact List.inj_on_of_nodup_map t.unique ha hb (hka.1.1.trans hkb.1.1.symm)

theorem KeyTable.lookup_eq_some {row : AuthRow} :
    t.lookup h now = some row ↔
      ∃ r ∈ t.rows, r.keyHash = h ∧ r.live now = true ∧ r.authRow = row := by
  rw [KeyTable.lookup, Option.map_eq_some_iff]
  apply exists_congr
  intro r
  rw [find?_eq_some_of_unique]
  · simp [and_assoc]
  · intro a ha b hb hka hkb
    simp only [Bool.and_eq_true, decide_eq_true_eq] at hka hkb
    exact t.eq_of_hash ha hb (hka.1.trans hkb.1.symm)

end Statements

section Cache

/-- `_key_cache`: when an entry expires, and the row, or that there is none. -/
abbrev KeyCache := OrderedDict String (Int × Option AuthRow)

def keyCacheTtl : Int := 60000000

def keyCacheMax : Nat := 4096

/-- The first part of `_lookup_key_cached`; a hit is the answer. -/
def probeKeyCache (cache : KeyCache) (h : String) (monotonic : Int) :
    KeyCache × Option (Option AuthRow) :=
  match cache.get? h with
  | some (expiresAt, row) =>
      if monotonic < expiresAt then (cache.moveToEnd h, some row)
      else (cache.discard (· = h), none)
  | none => (cache, none)

def storeKey (cache : KeyCache) (h : String) (monotonic : Int) (row : Option AuthRow) : KeyCache :=
  cache.assign keyCacheMax h (monotonic + keyCacheTtl, row)

/-- `_lookup_key_cached`, with the answer of the database. -/
def lookupKeyCached (found : Option AuthRow) (cache : KeyCache) (h : String) (monotonic : Int) :
    KeyCache × Option AuthRow :=
  match probeKeyCache cache h monotonic with
  | (cache, some row) => (cache, row)
  | (cache, none) => (storeKey cache h monotonic found, found)

def invalidateKeyCache (cache : KeyCache) (h : String) : KeyCache :=
  cache.discard (· = h)

variable {cache : KeyCache} {h : String} {monotonic : Int} {row : Option AuthRow}

theorem probeKeyCache_subset {x : String × (Int × Option AuthRow)}
    (hx : x ∈ (probeKeyCache cache h monotonic).1.entries) : x ∈ cache.entries := by
  rw [probeKeyCache] at hx
  cases hget : cache.get? h with
  | none => simpa only [hget] using hx
  | some v =>
      simp only [hget] at hx
      by_cases hvalid : monotonic < v.1
      · rw [if_pos hvalid] at hx
        exact OrderedDict.mem_moveToEnd hx
      · rw [if_neg hvalid] at hx
        exact (OrderedDict.mem_discard.mp hx).1

theorem probeKeyCache_hit (hhit : (probeKeyCache cache h monotonic).2 = some row) :
    ∃ expiresAt, cache.get? h = some (expiresAt, row) := by
  rw [probeKeyCache] at hhit
  cases hget : cache.get? h with
  | none => simp only [hget] at hhit; cases hhit
  | some v =>
      simp only [hget] at hhit
      by_cases hvalid : monotonic < v.1
      · rw [if_pos hvalid] at hhit
        cases hhit
        exact ⟨v.1, rfl⟩
      · rw [if_neg hvalid] at hhit
        cases hhit

theorem probeKeyCache_miss (cache : KeyCache) (h : String) :
    ∃ monotonic, (probeKeyCache cache h monotonic).2 = none := by
  cases hget : cache.get? h with
  | none =>
      refine ⟨0, ?_⟩
      simp only [probeKeyCache, hget]
  | some v =>
      refine ⟨v.1, ?_⟩
      simp only [probeKeyCache, hget, Int.lt_irrefl, if_false]

end Cache

section Secrets
variable (hash : String → String)

structure GeneratedKey where
  fullKey : String
  displayPrefix : String
  keyHash : String

/-- `_generate_key` for the characters that `token_urlsafe` has drawn. -/
def generateKey (suffix : String) : GeneratedKey where
  fullKey := "engramia_sk_" ++ suffix
  displayPrefix := "engramia_sk_" ++ String.ofList (suffix.toList.take 8) ++ "..."
  keyHash := hash ("engramia_sk_" ++ suffix)

end Secrets

end Engramia.Keys
