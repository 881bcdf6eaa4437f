import Engramia.Credentials.ResolverRace
import Engramia.Library.Recency
import Mathlib.Data.List.Induction

/-!
The cache of the resolver on its own: lookups, stores, invalidations of a tenant and the clock,
in any order. Every entry goes back to the last store under its key, with no invalidation of its
tenant since, and the entries stand in the order of their last uses, so that a full cache gives
up the one that was used least recently.
-/
namespace Engramia.Credentials
open Engramia.Library

/-- What is done with the cache. -/
inductive CacheOp where
  | get (k : ResolverKey)
  | put (k : ResolverKey) (cred : TenantCredential)
  | invalidate (tenantId : String)
  | advance (micros : ℕ)

structure ResolverCache where
  now : Int
  cached : OrderedDict ResolverKey (Int × TenantCredential)

/-- `_cache_put` -/
def cachePut (d : OrderedDict ResolverKey (Int × TenantCredential)) (k : ResolverKey)
    (cred : TenantCredential) (now : Int) : OrderedDict ResolverKey (Int × TenantCredential) :=
  d.put resolverCacheMax k (now + cacheTtlMicros, cred)

namespace ResolverCache
variable (s : ResolverCache)

def step : CacheOp → ResolverCache
  | .get k => { s with cached := (cacheGet s.cached k s.now).1 }
  | .put k cred => { s with cached := cachePut s.cached k cred s.now }
  | .invalidate tenantId => { s with cached := s.cached.discard fun k => k.1 = tenantId }
  | .advance micros => { s with now := s.now + micros }

/-- The keys that an operation uses: one that is found, or stored. -/
def used : CacheOp → List ResolverKey
  | .get k => if (cacheGet s.cached k s.now).2.isSome then [k] else []
  | .put k _ => [k]
  | _ => []

/-- The keys that a run uses, in order. -/
def uses : ResolverCache → List CacheOp → List ResolverKey
  | _, [] => []
  | s, op :: ops => s.used op ++ uses (s.step op) ops

end ResolverCache

def emptyCache (now : Int) : ResolverCache := ⟨now, OrderedDict.empty⟩

/-- How far the clock advances. -/
def elapsed : List CacheOp → ℕ
  | [] => 0
  | .advance micros :: ops => micros + elapsed ops
  | _ :: ops => elapsed ops

/-- The last store under a key, after which its tenant is not invalidated, `age` ago. -/
def LastStored (ops : List CacheOp) (k : ResolverKey) (cred : TenantCredential) (age : ℕ) : Prop :=
  ∃ earlier later, ops = earlier ++ .put k cred :: later ∧ (∀ cred', .put k cred' ∉ later) ∧
    .invalidate k.1 ∉ later ∧ elapsed later = age

/-- What holds of the cache after a run. -/
structure CacheLaw (start : ResolverCache) (ops : List CacheOp) (s : ResolverCache) : Prop where
  bounded : s.cached.entries.length ≤ resolverCacheMax
  found : ∀ k cred, (cacheGet s.cached k s.now).2 = some cred →
    ∃ age, LastStored ops k cred age ∧ age < cacheTtlMicros
  evicts : ∀ k cred a, a ∈ s.cached.entries.map Prod.fst →
    a ∉ (cachePut s.cached k cred s.now).entries.map Prod.fst →
    s.cached.entries.length = resolverCacheMax ∧ k ∉ s.cached.entries.map Prod.fst ∧
      ∀ b ∈ s.cached.entries.map Prod.fst, b ≠ a →
        b ∈ (cachePut s.cached k cred s.now).entries.map Prod.fst ∧
          UsedSince (start.uses ops) a b

/-- Every entry is a last store and expires a TTL after it, and the keys stand in the order of
their uses. -/
structure CacheInv (start : ResolverCache) (ops : List CacheOp) (s : ResolverCache) : Prop where
  bounded : s.cached.entries.length ≤ resolverCacheMax
  stored : s.cached.All fun k e =>
    ∃ age, LastStored ops k e.2 age ∧ e.1 + age = s.now + cacheTtlMicros
  ordered : s.cached.ByRecency (start.uses ops)

section Lookups
variable {d : OrderedDict ResolverKey (Int × TenantCredential)} {k : ResolverKey} {now : Int}

theorem cacheGet_cases (d : OrderedDict ResolverKey (Int × TenantCredential)) (k : ResolverKey)
    (now : Int) :
    (∃ e, d.get? k = some e ∧ now < e.1 ∧ cacheGet d k now = (d.moveToEnd k, some e.2)) ∨
      cacheGet d k now = (d.discard (· = k), none) ∨ cacheGet d k now = (d, none) := by
  cases hget : d.get? k with
  | none => exact .inr (.inr (by rw [cacheGet, hget]))
  | some e =>
      by_cases hexpired : e.1 ≤ now
      · exact .inr (.inl (by rw [cacheGet, hget]; exact if_pos hexpired))
      · refine .inl ⟨e, rfl, Int.lt_of_not_ge hexpired, ?_⟩
        rw [cacheGet, hget]
        exact if_neg hexpired

end Lookups

section Histories
variable {ops : List CacheOp} {op : CacheOp} {k : ResolverKey} {cred : TenantCredential}
variable {age : ℕ}

theorem elapsed_append (ops ops' : List CacheOp) :
    elapsed (ops ++ ops') = elapsed ops + elapsed ops' := by
  induction ops with
  | nil => exact (Nat.zero_add _).symm
  | cons op ops ih =>
      cases op with
      | advance micros => exact (congrArg (micros + ·) ih).trans (Nat.add_assoc _ _ _).symm
      | get _ | put _ _ | invalidate _ => exact ih

theorem LastStored.later (h : LastStored ops k cred age) (hput : ∀ cred', op ≠ .put k cred')
    (hinvalidate : op ≠ .invalidate k.1) :
    LastStored (ops ++ [op]) k cred (age + elapsed [op]) := by
  obtain ⟨earlier, later, hops, hlast, hkept, hage⟩ := h
  refine ⟨earlier, later ++ [op], by rw [hops, List.append_assoc, List.cons_append], ?_, ?_, ?_⟩
  · intro cred' hmem
    cases List.mem_append.mp hmem with
    | inl hlater => exact hlast cred' hlater
    | inr hop => exact hput cred' (List.mem_singleton.mp hop).symm
  · intro hmem
    cases List.mem_append.mp hmem with
    | inl hlater => exact hkept hlater
    | inr hop => exact hinvalidate (List.mem_singleton.mp hop).symm
  · rw [elapsed_append, hage]

theorem lastStored_now (ops : List CacheOp) (k : ResolverKey) (cred : TenantCredential) :
    LastStored (ops ++ [.put k cred]) k cred 0 :=
  ⟨ops, [], rfl, fun _ => List.not_mem_nil, List.not_mem_nil, rfl⟩

theorem ResolverCache.uses_concat (s : ResolverCache) (ops : List CacheOp) (op : CacheOp) :
    s.uses (ops ++ [op]) = s.uses ops ++ (exec step s ops).used op := by
  induction ops generalizing s with
  | nil => exact List.append_nil _
  | cons op' ops ih =>
      rw [List.cons_append, uses, uses, ih, exec_cons, List.append_assoc]

end Histories

section Runs
variable {start s : ResolverCache} {ops : List CacheOp}

theorem CacheInv.get (h : CacheInv start ops s) (huses : s = exec ResolverCache.step start ops)
    (k : ResolverKey) : CacheInv start (ops ++ [.get k]) (s.step (.get k)) where
  bounded :=
    Nat.le_trans (OrderedDict.length_le_of_subset (cacheGet_subset s.cached k s.now)) h.bounded
  stored x hx := by
    obtain ⟨age, hstored, hage⟩ := h.stored x (cacheGet_subset s.cached k s.now x hx)
    exact ⟨age, hstored.later (fun _ heq => by cases heq) (fun heq => by cases heq), hage⟩
  ordered := by
    rw [ResolverCache.uses_concat, ← huses, ResolverCache.step, ResolverCache.used]
    cases cacheGet_cases s.cached k s.now with
    | inl hhit =>
        obtain ⟨e, he, _, hget⟩ := hhit
        rw [hget]
        exact h.ordered.moveToEnd he
    | inr hmiss =>
        cases hmiss with
        | inl hget =>
            rw [hget]
            exact (List.append_nil (start.uses ops)).symm ▸ h.ordered.discard _
        | inr hget =>
            rw [hget]
            exact (List.append_nil (start.uses ops)).symm ▸ h.ordered

theorem CacheInv.put (h : CacheInv start ops s) (k : ResolverKey) (cred : TenantCredential) :
    CacheInv start (ops ++ [.put k cred]) (s.step (.put k cred)) where
  bounded := by
    rw [ResolverCache.step, cachePut]
    exact OrderedDict.length_put_le
  stored x hx := by
    rw [ResolverCache.step, cachePut] at hx
    rw [ResolverCache.step]
    cases OrderedDict.mem_put_cases hx with
    | inl hold =>
        obtain ⟨age, hstored, hage⟩ := h.stored x hold.1
        refine ⟨age, hstored.later ?_ ?_, hage⟩
        · intro cred' heq
          injection heq with hk
          exact hold.2 hk.symm
        · intro heq
          cases heq
    | inr hnew =>
        subst hnew
        refine ⟨0, lastStored_now ops k cred, ?_⟩
        rw [Int.natCast_zero, Int.add_zero]
  ordered := by
    rw [ResolverCache.uses_concat, ResolverCache.step, cachePut]
    exact h.ordered.put

theorem CacheInv.invalidate (h : CacheInv start ops s) (tenantId : String) :
    CacheInv start (ops ++ [.invalidate tenantId]) (s.step (.invalidate tenantId)) where
  bounded := Nat.le_trans (List.length_filter_le _ _) h.bounded
  stored x hx := by
    have hkept := OrderedDict.mem_discard.mp hx
    obtain ⟨age, hstored, hage⟩ := h.stored x hkept.1
    refine ⟨age, hstored.later (fun _ heq => by cases heq) ?_, hage⟩
    intro heq
    cases heq
    exact of_decide_eq_false hkept.2 rfl
  ordered := by
    rw [ResolverCache.uses_concat]
    exact (List.append_nil (start.uses ops)).symm ▸ h.ordered.discard _

theorem CacheInv.advance (h : CacheInv start ops s) (micros : ℕ) :
    CacheInv start (ops ++ [.advance micros]) (s.step (.advance micros)) where
  bounded := h.bounded
  stored x hx := by
    obtain ⟨age, hstored, hage⟩ := h.stored x hx
    refine ⟨age + micros, hstored.later (fun _ heq => by cases heq) (fun heq => by cases heq), ?_⟩
    show x.2.1 + (age + micros : ℕ) = s.now + micros + cacheTtlMicros
    omega
  ordered := by
    rw [ResolverCache.uses_concat]
    exact (List.append_nil (start.uses ops)).symm ▸ h.ordered

theorem cacheInv_run (now : Int) (ops : List CacheOp) :
    CacheInv (emptyCache now) ops (exec ResolverCache.step (emptyCache now) ops) := by
  induction ops using List.reverseRecOn with
  | nil => exact ⟨Nat.zero_le _, OrderedDict.all_empty, OrderedDict.ByRecency.empty⟩
  | append_singleton ops op ih =>
      rw [exec_append, exec_cons, exec_nil]
      cases op with
      | get k => exact ih.get rfl k
      | put k cred => exact ih.put k cred
      | invalidate tenantId => exact ih.invalidate tenantId
      | advance micros => exact ih.advance micros

theorem CacheInv.law (h : CacheInv start ops s) : CacheLaw start ops s where
  bounded := h.bounded
  found k cred hfound := by
    cases cacheGet_cases s.cached k s.now with
    | inl hhit =>
        obtain ⟨e, he, hlive, hget⟩ := hhit
        rw [hget] at hfound
        cases hfound
        obtain ⟨age, hstored, hage⟩ := h.stored.get? he
        exact ⟨age, hstored, by omega⟩
    | inr hmiss =>
        cases hmiss with
        | inl hget => rw [hget] at hfound; cases hfound
        | inr hget => rw [hget] at hfound; cases hfound
  evicts _ _ _ ha hgone := h.ordered.put_evicts h.bounded ha hgone

/-- The cache keeps its law in every run. -/
theorem resolver_cache_law (now : Int) (ops : List CacheOp) :
    CacheLaw (emptyCache now) ops (exec ResolverCache.step (emptyCache now) ops) :=
  (cacheInv_run now ops).law

end Runs

end Engramia.Credentials
