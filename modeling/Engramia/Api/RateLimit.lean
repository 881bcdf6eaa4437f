import Engramia.Library.OrderedDict
import Engramia.Library.Run
import Engramia.Library.Tally
import Engramia.Storage.Paths
import Mathlib.Algebra.Order.Floor.Ring
import Mathlib.Data.Rat.Floor
import Mathlib.Tactic.Linarith

/-!
The rate limiter. One dictionary holds a counter for each client address, path and minute and
one for each API key and minute. A request raises its counters before it is admitted or turned
away, and now and then the counters of minutes that are over are dropped.

The part of a request before its first `await` is one step. It reads the clock for the window,
for the age of the last collection and in the collection, and takes less than a minute.
-/
namespace Engramia.Api
open Engramia.Library Engramia.Storage

section Definitions

/-- The path of a URL, empty or from the root on. -/
structure UrlPath where
  text : Text
  rooted : text = [] ∨ text.head? = some '/'

/-- `hashlib.sha256(…).hexdigest()[:32]` -/
structure TokenHash where
  digest : Text → Text
  hex : ∀ token, (digest token).length = 32 ∧ '/' ∉ digest token

structure Reading where
  arrived : ℚ
  locked : ℚ
  collected : ℚ
  ordered : arrived ≤ locked ∧ locked ≤ collected
  atomic : collected < arrived + 60

structure LimitedRequest where
  client : Option Text
  path : UrlPath
  authorization : Text
  reading : Reading

/-- The numbers come from the environment unchecked. -/
structure RateLimits where
  default : ℤ
  expensive : ℤ
  keyLimit : ℤ

abbrev Bucket := Text × Text × ℤ

structure RateLimiter where
  counts : OrderedDict Bucket ℕ
  lastGc : ℚ

inductive Verdict where
  | admitted
  | ipLimited
  | keyLimited
deriving DecidableEq

structure Served where
  request : LimitedRequest
  verdict : Verdict

inductive LimiterAction where
  | request (r : LimitedRequest)
  | collect (now : ℚ)

def minute (now : ℚ) : ℤ := ⌊now / 60⌋

def unknownHost : Text := ['u', 'n', 'k', 'n', 'o', 'w', 'n']

def keyTag : Text := ['k', 'e', 'y']

def bearerPrefix : Text := ['B', 'e', 'a', 'r', 'e', 'r', ' ']

/-- `_EXPENSIVE_PATH_FRAGMENTS` -/
def expensivePathFragments : List Text :=
  [['/', 'e', 'v', 'a', 'l', 'u', 'a', 't', 'e'], ['/', 'c', 'o', 'm', 'p', 'o', 's', 'e'],
    ['/', 'e', 'v', 'o', 'l', 'v', 'e']]

def RateLimits.getLimit (limits : RateLimits) (path : Text) : ℤ :=
  if expensivePathFragments.any fun fragment => path.tails.any fragment.isPrefixOf then
    limits.expensive
  else limits.default

namespace LimitedRequest
variable (r : LimitedRequest)

def ip : Text := r.client.getD unknownHost

def window : ℤ := minute r.reading.arrived

def ipBucket : Bucket := (r.ip, r.path.text, r.window)

def token : Option Text :=
  if bearerPrefix.isPrefixOf r.authorization then some (r.authorization.drop 7) else none

def keyBucket (h : TokenHash) : Option Bucket :=
  r.token.map fun token => (keyTag, h.digest token, r.window)

end LimitedRequest

/-- `_gc` -/
def RateLimiter.gc (s : RateLimiter) (now : ℚ) : RateLimiter :=
  { s with counts := s.counts.discard fun k => !(minute now - 1 ≤ k.2.2) }

def RateLimiter.count (s : RateLimiter) (k : Bucket) : ℕ := (s.counts.get? k).getD 0

def RateLimiter.increment (s : RateLimiter) (k : Bucket) : RateLimiter :=
  { s with counts := s.counts.set k (s.count k + 1) }

/-- The collection at the start of a request, every five minutes. -/
def RateLimiter.maybeGc (s : RateLimiter) (reading : Reading) : RateLimiter :=
  if reading.locked - s.lastGc > 300 then
    { s.gc reading.collected with lastGc := reading.locked }
  else s

variable (h : TokenHash) (limits : RateLimits)

/-- What the counters read under the lock say of a request. -/
def verdict (r : LimitedRequest) (ipCount keyCount : ℕ) : Verdict :=
  if limits.getLimit r.path.text < ipCount then .ipLimited
  else if (r.keyBucket h).isSome ∧ limits.keyLimit < keyCount then .keyLimited
  else .admitted

/-- `dispatch` up to the call of the next handler -/
def RateLimiter.dispatch (s : RateLimiter) (r : LimitedRequest) : RateLimiter × Verdict :=
  let s₁ := (s.maybeGc r.reading).increment r.ipBucket
  let ipCount := s₁.count r.ipBucket
  match r.keyBucket h with
  | none => (s₁, verdict h limits r ipCount 0)
  | some k =>
      let s₂ := s₁.increment k
      (s₂, verdict h limits r ipCount (s₂.count k))

/-- The limiter with the requests it has answered, in order. -/
structure LimiterState where
  limiter : RateLimiter
  served : List Served

def limiterStep (s : LimiterState) : LimiterAction → LimiterState
  | .request r =>
      let d := s.limiter.dispatch h limits r
      { limiter := d.1
        served := s.served ++ [{ request := r, verdict := d.2 }] }
  | .collect now => { s with limiter := { s.limiter.gc now with lastGc := now } }

def Served.onPath (ip path : Text) (window : ℤ) (s : Served) : Bool :=
  s.request.ip = ip ∧ s.request.path.text = path ∧ s.request.window = window

def Served.withKey (token : Text) (window : ℤ) (s : Served) : Bool :=
  s.request.token = some token ∧ s.request.window = window

def Served.isAdmitted (s : Served) : Bool := s.verdict = .admitted

/-- No limit is exceeded by what was admitted, and each request turned away is one too many
among those that have arrived. -/
structure WithinLimits (served : List Served) : Prop where
  perPath : ∀ ip path window,
    served.countP (fun s => s.isAdmitted && s.onPath ip path window) ≤
      (limits.getLimit path).toNat
  perKey : ∀ token window,
    served.countP (fun s => s.isAdmitted && s.withKey token window) ≤ limits.keyLimit.toNat
  rejected : ∀ before s, before ++ [s] <+: served → s.isAdmitted = false →
    limits.getLimit s.request.path.text < (before ++ [s]).countP
        (Served.onPath s.request.ip s.request.path.text s.request.window) ∨
      ∃ token, s.request.token = some token ∧
        limits.keyLimit < (before ++ [s]).countP (Served.withKey token s.request.window)

/-- The first and the last reading of the clock in a step. -/
def LimiterAction.first : LimiterAction → ℚ
  | .request r => r.reading.arrived
  | .collect now => now

def LimiterAction.last : LimiterAction → ℚ
  | .request r => r.reading.collected
  | .collect now => now

def Forward (run : List LimiterAction) : Prop :=
  run.Pairwise fun a b => a.last ≤ b.first

def NoCollision (run : List LimiterAction) : Prop :=
  ∀ r, .request r ∈ run → ∀ r', .request r' ∈ run → ∀ token ∈ r.token, ∀ token' ∈ r'.token,
    h.digest token = h.digest token' → token = token'

def freshLimiter (now : ℚ) : LimiterState where
  limiter := { counts := OrderedDict.empty, lastGc := now }
  served := []

end Definitions

theorem LimiterAction.first_le_last (a : LimiterAction) : a.first ≤ a.last := by
  cases a with
  | request r => exact r.reading.ordered.1.trans r.reading.ordered.2
  | collect now => exact le_refl now

section Counters
variable {s : RateLimiter} {k : Bucket} {now : ℚ}

theorem minute_mono {a b : ℚ} (h : a ≤ b) : minute a ≤ minute b :=
  Int.floor_mono (div_le_div_of_nonneg_right h (by norm_num))

theorem LimitedRequest.window_live (r : LimitedRequest) :
    minute r.reading.collected - 1 ≤ r.window := by
  have hshift : minute (r.reading.arrived + 60) = minute r.reading.arrived + 1 := by
    rw [minute, minute, ← Int.floor_add_one, add_div, div_self (by norm_num)]
  have hlate := minute_mono r.reading.atomic.le
  rw [LimitedRequest.window]
  omega

theorem RateLimiter.count_gc (h : minute now - 1 ≤ k.2.2) : (s.gc now).count k = s.count k := by
  rw [RateLimiter.count, RateLimiter.gc, OrderedDict.get?_discard, decide_eq_true h]
  rfl

theorem RateLimiter.count_maybeGc {reading : Reading}
    (h : minute reading.collected - 1 ≤ k.2.2) : (s.maybeGc reading).count k = s.count k := by
  rw [RateLimiter.maybeGc]
  split
  · exact RateLimiter.count_gc h
  · rfl

theorem RateLimiter.count_increment (s : RateLimiter) (k k' : Bucket) :
    (s.increment k).count k' = s.count k' + if k' = k then 1 else 0 := by
  rw [RateLimiter.count, RateLimiter.increment, OrderedDict.get?_set]
  by_cases hk : k' = k
  · rw [if_pos hk, if_pos hk, hk]
    rfl
  · rw [if_neg hk, if_neg hk]
    rfl

end Counters

section Buckets
variable {h : TokenHash} {r : LimitedRequest} {k : Bucket}

def Touches (h : TokenHash) (r : LimitedRequest) (k : Bucket) : Prop :=
  r.ipBucket = k ∨ r.keyBucket h = some k

instance : Decidable (Touches h r k) := inferInstanceAs (Decidable (_ ∨ _))

theorem keyBucket_eq_some :
    r.keyBucket h = some k ↔
      ∃ token, r.token = some token ∧ (keyTag, h.digest token, r.window) = k :=
  Option.map_eq_some_iff

theorem path_ne_digest (h : TokenHash) (path : UrlPath) (token : Text) :
    path.text ≠ h.digest token := by
  intro heq
  obtain ⟨hlength, hslash⟩ := h.hex token
  rw [← heq] at hlength hslash
  cases path.rooted with
  | inl hnil =>
      rw [hnil] at hlength
      cases hlength
  | inr hhead => exact hslash (List.mem_of_mem_head? (by rw [hhead]; rfl))

theorem keyBucket_ne_path (h : TokenHash) (r : LimitedRequest) (ip : Text) (path : UrlPath)
    (window : ℤ) : r.keyBucket h ≠ some (ip, path.text, window) := by
  intro heq
  obtain ⟨token, _, hbucket⟩ := keyBucket_eq_some.mp heq
  rw [Prod.mk.injEq, Prod.mk.injEq] at hbucket
  exact path_ne_digest h path token hbucket.2.1.symm

theorem touches_path {ip : Text} {path : UrlPath} {window : ℤ} :
    Touches h r (ip, path.text, window) ↔
      r.ip = ip ∧ r.path.text = path.text ∧ r.window = window := by
  rw [Touches, or_iff_left (keyBucket_ne_path h r ip path window), LimitedRequest.ipBucket,
    Prod.mk.injEq, Prod.mk.injEq]

theorem touches_key {token : Text} {window : ℤ} :
    Touches h r (keyTag, h.digest token, window) ↔
      ∃ token', r.token = some token' ∧ h.digest token' = h.digest token ∧ r.window = window := by
  have hpath : r.ipBucket ≠ (keyTag, h.digest token, window) := by
    intro heq
    rw [LimitedRequest.ipBucket, Prod.mk.injEq, Prod.mk.injEq] at heq
    exact path_ne_digest h r.path token heq.2.1
  rw [Touches, or_iff_right hpath, keyBucket_eq_some]
  simp only [Prod.mk.injEq, true_and]

theorem dispatch_spec (h : TokenHash) (limits : RateLimits) (s : RateLimiter)
    (r : LimitedRequest) :
    (∀ k : Bucket, minute r.reading.collected - 1 ≤ k.2.2 →
      (s.dispatch h limits r).1.count k = s.count k + if Touches h r k then 1 else 0) ∧
    (s.dispatch h limits r).2 =
      verdict h limits r (s.count r.ipBucket + 1)
        ((r.keyBucket h).elim 0 fun k => s.count k + 1) := by
  have hip : ((s.maybeGc r.reading).increment r.ipBucket).count r.ipBucket =
      s.count r.ipBucket + 1 := by
    rw [RateLimiter.count_increment, if_pos rfl, RateLimiter.count_maybeGc r.window_live]
  cases hkey : r.keyBucket h with
  | none =>
      simp only [RateLimiter.dispatch, hkey, hip, Option.elim_none, and_true]
      intro k hk
      rw [RateLimiter.count_increment, RateLimiter.count_maybeGc hk]
      simp only [Touches, hkey]
      simp [eq_comm]
  | some k₀ =>
      obtain ⟨token, htoken, hk₀⟩ := keyBucket_eq_some.mp hkey
      have hne : k₀ ≠ r.ipBucket := by
        intro heq
        rw [heq] at hkey
        exact keyBucket_ne_path h r r.ip r.path r.window hkey
      have hwindow : k₀.2.2 = r.window := by rw [← hk₀]
      have hkeyCount : (((s.maybeGc r.reading).increment r.ipBucket).increment k₀).count k₀ =
          s.count k₀ + 1 := by
        rw [RateLimiter.count_increment, RateLimiter.count_increment, if_pos rfl, if_neg hne,
          RateLimiter.count_maybeGc (by rw [hwindow]; exact r.window_live)]
      simp only [RateLimiter.dispatch, hkey, hip, hkeyCount, Option.elim_some, and_true]
      intro k hk
      rw [RateLimiter.count_increment, RateLimiter.count_increment,
        RateLimiter.count_maybeGc hk]
      simp only [Touches, hkey, Option.some.injEq]
      by_cases hki : k = r.ipBucket
      · have hkk : k ≠ k₀ := fun heq => hne (heq.symm.trans hki)
        simp [hki, Ne.symm hne]
      · by_cases hkk : k = k₀
        · simp [hkk, hne, Ne.symm hne]
        · simp [hki, hkk, Ne.symm hki, Ne.symm hkk]

end Buckets

section Histories
variable {h : TokenHash} {limits : RateLimits} {st : LimiterState} {now : ℚ}
  {served : List Served} {s : Served}

/-- The requests that have raised a bucket. -/
def arrivals (h : TokenHash) (k : Bucket) (served : List Served) : ℕ :=
  served.countP fun s => Touches h s.request k

/-- The counters of windows that are not over are the numbers of arrivals. -/
def Counted (h : TokenHash) (now : ℚ) (st : LimiterState) : Prop :=
  ∀ k : Bucket, minute now - 1 ≤ k.2.2 → st.limiter.count k = arrivals h k st.served

theorem Counted.collect (hcounted : Counted h now st) {later : ℚ} (hlater : now ≤ later) :
    Counted h later (limiterStep h limits st (.collect later)) := by
  intro k hk
  have hminute := minute_mono hlater
  exact (RateLimiter.count_gc hk).trans (hcounted k (by omega))

theorem Counted.request (hcounted : Counted h now st) {r : LimitedRequest}
    (hlater : now ≤ r.reading.arrived) :
    Counted h r.reading.collected (limiterStep h limits st (.request r)) := by
  intro k hk
  have hminute := minute_mono (hlater.trans (r.reading.ordered.1.trans r.reading.ordered.2))
  refine ((dispatch_spec h limits st.limiter r).1 k hk).trans ?_
  rw [hcounted k (by omega), limiterStep, arrivals, arrivals, countP_concat]
  simp

theorem Counted.verdict (hcounted : Counted h now st) {r : LimitedRequest}
    (hlater : now ≤ r.reading.arrived) :
    (st.limiter.dispatch h limits r).2 =
      Api.verdict h limits r (arrivals h r.ipBucket st.served + 1)
        ((r.keyBucket h).elim 0 fun k => arrivals h k st.served + 1) := by
  have hminute := minute_mono hlater
  have hlive : minute now - 1 ≤ r.window := by
    rw [LimitedRequest.window]
    omega
  rw [(dispatch_spec h limits st.limiter r).2, hcounted r.ipBucket hlive]
  cases hkey : r.keyBucket h with
  | none => rfl
  | some k =>
      obtain ⟨token, _, hk⟩ := keyBucket_eq_some.mp hkey
      have hwindow : k.2.2 = r.window := by rw [← hk]
      rw [Option.elim_some, Option.elim_some, hcounted k (by rw [hwindow]; exact hlive)]

theorem arrivals_path (h : TokenHash) (ip : Text) (path : UrlPath) (window : ℤ)
    (served : List Served) :
    arrivals h (ip, path.text, window) served =
      served.countP (Served.onPath ip path.text window) := by
  apply List.countP_congr
  intro s _
  rw [decide_eq_true_eq, touches_path, Served.onPath, decide_eq_true_eq]

theorem withKey_le_arrivals (h : TokenHash) (token : Text) (window : ℤ) (served : List Served) :
    served.countP (Served.withKey token window) ≤
      arrivals h (keyTag, h.digest token, window) served := by
  apply List.countP_mono_left
  intro s _ hs
  rw [Served.withKey, decide_eq_true_eq] at hs
  exact decide_eq_true (touches_key.mpr ⟨token, hs.1, rfl, hs.2⟩)

theorem arrivals_key {token : Text} (window : ℤ)
    (hno : ∀ s ∈ served, ∀ token' ∈ s.request.token, h.digest token' = h.digest token →
      token' = token) :
    arrivals h (keyTag, h.digest token, window) served =
      served.countP (Served.withKey token window) := by
  apply List.countP_congr
  intro s hs
  rw [decide_eq_true_eq, touches_key, Served.withKey, decide_eq_true_eq]
  constructor
  · intro htouch
    obtain ⟨token', htoken, hdigest, hwindow⟩ := htouch
    rw [hno s hs token' htoken hdigest] at htoken
    exact ⟨htoken, hwindow⟩
  · intro hsame
    exact ⟨token, hsame.1, rfl, hsame.2⟩

end Histories

section Steps
variable {h : TokenHash} {limits : RateLimits} {st : LimiterState} {now : ℚ} {r : LimitedRequest}

theorem verdict_admitted_iff {ipCount : ℕ} {count : Bucket → ℕ} :
    verdict h limits r ipCount ((r.keyBucket h).elim 0 count) = .admitted ↔
      (ipCount : ℤ) ≤ limits.getLimit r.path.text ∧
      ∀ k, r.keyBucket h = some k → (count k : ℤ) ≤ limits.keyLimit := by
  rw [verdict, ← not_lt]
  by_cases hip : limits.getLimit r.path.text < (ipCount : ℤ)
  · simp [hip]
  · cases hkey : r.keyBucket h with
    | none => simp [hip]
    | some k =>
        by_cases hover : limits.keyLimit < (count k : ℤ)
        · simp [hip, hover]
        · simp [hip, hover, not_lt.mp hover]

theorem verdict_spec (hcounted : Counted h now st) (hlater : now ≤ r.reading.arrived)
    {s : Served} (hs : s = { request := r, verdict := (st.limiter.dispatch h limits r).2 }) :
    s.isAdmitted = true ↔
      (arrivals h r.ipBucket (st.served ++ [s]) : ℤ) ≤ limits.getLimit r.path.text ∧
      ∀ k, r.keyBucket h = some k → (arrivals h k (st.served ++ [s]) : ℤ) ≤ limits.keyLimit := by
  have harrivals (k : Bucket) (hk : Touches h r k) :
      arrivals h k (st.served ++ [s]) = arrivals h k st.served + 1 := by
    rw [arrivals, arrivals, countP_concat, hs, if_pos (decide_eq_true hk)]
  have hverdict : s.verdict = _ := (congrArg Served.verdict hs).trans (hcounted.verdict hlater)
  rw [Served.isAdmitted, decide_eq_true_eq, hverdict, verdict_admitted_iff,
    harrivals r.ipBucket (.inl rfl)]
  apply and_congr_right'
  apply forall_congr'
  intro k
  apply imp_congr_right
  intro hk
  rw [harrivals k (.inr hk)]

/-- A bound on the admitted requests of a kind survives a request that is admitted only while
the arrivals of the kind are within the bound. -/
theorem admitted_concat {kind : Served → Bool} {served : List Served} {s : Served} {n : ℤ}
    (hold : served.countP (fun s => s.isAdmitted && kind s) ≤ n.toNat)
    (hnew : s.isAdmitted = true → kind s = true → ((served ++ [s]).countP kind : ℤ) ≤ n) :
    (served ++ [s]).countP (fun s => s.isAdmitted && kind s) ≤ n.toNat := by
  by_cases hs : (s.isAdmitted && kind s) = true
  · obtain ⟨hadmitted, hkind⟩ := (Bool.and_eq_true _ _).mp hs
    have hall := hnew hadmitted hkind
    have hmono : (served ++ [s]).countP (fun s => s.isAdmitted && kind s) ≤
        (served ++ [s]).countP kind := by
      apply List.countP_mono_left
      intro x _ hx
      exact ((Bool.and_eq_true _ _).mp hx).2
    omega
  · rw [countP_concat, if_neg hs]
    exact hold

theorem WithinLimits.request (hwithin : WithinLimits limits st.served)
    (hcounted : Counted h now st) (hlater : now ≤ r.reading.arrived)
    (hno : ∀ s ∈ st.served, ∀ token ∈ r.token, ∀ token' ∈ s.request.token,
      h.digest token' = h.digest token → token' = token)
    (hself : ∀ token ∈ r.token, ∀ token' ∈ r.token,
      h.digest token' = h.digest token → token' = token) :
    WithinLimits limits (limiterStep h limits st (.request r)).served := by
  rw [limiterStep]
  dsimp only
  generalize hs : ({ request := r, verdict := (st.limiter.dispatch h limits r).2 } : Served) = s
  have hspec := verdict_spec hcounted hlater hs.symm
  have hr : s.request = r := by rw [← hs]
  constructor
  · intro ip path window
    apply admitted_concat (hwithin.perPath ip path window)
    intro hyes hkind
    rw [Served.onPath, decide_eq_true_eq, hr] at hkind
    obtain ⟨rfl, rfl, rfl⟩ := hkind
    rw [← arrivals_path h]
    exact (hspec.mp hyes).1
  · intro token window
    apply admitted_concat (hwithin.perKey token window)
    intro hyes hkind
    rw [Served.withKey, decide_eq_true_eq, hr] at hkind
    obtain ⟨htoken, rfl⟩ := hkind
    have hkey : r.keyBucket h = some (keyTag, h.digest token, r.window) :=
      keyBucket_eq_some.mpr ⟨token, htoken, rfl⟩
    have hle := withKey_le_arrivals h token r.window (st.served ++ [s])
    have hlimit := (hspec.mp hyes).2 _ hkey
    omega
  · intro before s' hprefix hturned
    cases List.prefix_concat_iff.mp hprefix with
    | inr hold => exact hwithin.rejected before s' hold hturned
    | inl hall =>
        obtain ⟨rfl, hlast⟩ := List.append_inj' hall rfl
        cases hlast
        rw [hr]
        by_cases hip : limits.getLimit r.path.text <
            (arrivals h r.ipBucket (st.served ++ [s]) : ℤ)
        · left
          rwa [← arrivals_path h]
        · right
          have hkey : ∃ k, r.keyBucket h = some k ∧
              limits.keyLimit < (arrivals h k (st.served ++ [s]) : ℤ) := by
            by_contra hnone
            have hyes := hspec.mpr ⟨not_lt.mp hip, fun k hk => not_lt.mp fun hover =>
              hnone ⟨k, hk, hover⟩⟩
            rw [hturned] at hyes
            cases hyes
          obtain ⟨k, hk, hlimit⟩ := hkey
          obtain ⟨token, htoken, rfl⟩ := keyBucket_eq_some.mp hk
          refine ⟨token, htoken, ?_⟩
          rwa [arrivals_key] at hlimit
          intro x hx token' htoken' hdigest
          cases List.mem_append.mp hx with
          | inl hx => exact hno x hx token htoken token' htoken' hdigest
          | inr hx =>
              rw [List.mem_singleton.mp hx, hr] at htoken'
              exact hself token htoken token' htoken' hdigest

theorem within_run {all : List LimiterAction} (hno : NoCollision h all)
    {run : List LimiterAction} (hall : ∀ a ∈ run, a ∈ all) (hforward : Forward run)
    (hlater : ∀ a ∈ run, now ≤ a.first) (hcounted : Counted h now st)
    (hserved : ∀ s ∈ st.served, .request s.request ∈ all)
    (hwithin : WithinLimits limits st.served) :
    WithinLimits limits (exec (limiterStep h limits) st run).served := by
  induction run generalizing st now with
  | nil => exact hwithin
  | cons a run ih =>
      obtain ⟨hmem, hrest⟩ := List.forall_mem_cons.mp hall
      obtain ⟨hnow, _⟩ := List.forall_mem_cons.mp hlater
      obtain ⟨hnext, hordered⟩ := List.pairwise_cons.mp hforward
      cases a with
      | collect later =>
          exact ih hrest hordered hnext (hcounted.collect hnow) hserved hwithin
      | request r =>
          have htoken (s : Served) (hs : s ∈ st.served) (token : Text) (ht : token ∈ r.token)
              (token' : Text) (ht' : token' ∈ s.request.token)
              (hdigest : h.digest token' = h.digest token) : token' = token :=
            hno s.request (hserved s hs) r hmem token' ht' token ht hdigest
          have hself (token : Text) (ht : token ∈ r.token) (token' : Text) (ht' : token' ∈ r.token)
              (hdigest : h.digest token' = h.digest token) : token' = token :=
            hno r hmem r hmem token' ht' token ht hdigest
          refine ih hrest hordered hnext (hcounted.request hnow) ?_
            (hwithin.request hcounted hnow htoken hself)
          exact forall_mem_append_singleton hserved hmem

end Steps

theorem withinLimits_nil (limits : RateLimits) : WithinLimits limits [] where
  perPath _ _ _ := Nat.zero_le _
  perKey _ _ := Nat.zero_le _
  rejected before s hprefix _ := by
    have hnil := List.prefix_nil.mp hprefix
    simp at hnil

/-- With a clock that does not go back and tokens told apart by their hashes, no window admits
more requests than a limit, and no request is turned away that is not one too many. -/
theorem rate_limiter_bound (h : TokenHash) (limits : RateLimits) (started : ℚ)
    (run : List LimiterAction) (hforward : Forward run) (hno : NoCollision h run) :
    WithinLimits limits (exec (limiterStep h limits) (freshLimiter started) run).served := by
  cases run with
  | nil => exact withinLimits_nil limits
  | cons a run =>
      have hlater : ∀ b ∈ a :: run, a.first ≤ b.first := by
        intro b hb
        cases List.mem_cons.mp hb with
        | inl heq => rw [heq]
        | inr hrest =>
            exact a.first_le_last.trans ((List.pairwise_cons.mp hforward).1 b hrest)
      exact within_run hno (fun _ hb => hb) hforward hlater (fun _ _ => rfl)
        (fun _ hs => nomatch hs) (withinLimits_nil limits)

section Sample

/-- The hash of the token `k1`, with a stand-in for the others. -/
def sampleDigest : Text :=
  ['6', 'a', 'b', '9', 'f', '1', 'e', 'b', '8', 'f', '7', 'd', '3', '3', '8', '8', 'f', '4',
    'f', '9', 'd', '5', '8', '6', 'f', '6', '6', 'e', '9', '9', 'f', 'd']

def sampleHash : TokenHash where
  digest token := if token = ['k', '1'] then sampleDigest else List.replicate 32 '0'
  hex token := by
    split <;> simp [sampleDigest]

theorem atOnce_ordered (now : ℚ) : now ≤ now ∧ now ≤ now := ⟨le_refl now, le_refl now⟩

def sampleRequest (now : ℚ) : LimitedRequest where
  client := some ['1', '2', '7', '.', '0', '.', '0', '.', '1']
  path := { text := ['/', 'v', '1'], rooted := .inr rfl }
  authorization := bearerPrefix ++ ['k', '1']
  reading :=
    { arrived := now, locked := now, collected := now, ordered := atOnce_ordered now
      atomic := by linarith }

/-- Two requests with one token, a collection between them. -/
def sampleRun : List LimiterAction :=
  [.request (sampleRequest 10), .collect 20, .request (sampleRequest 30)]

theorem rate_limiter_bound_two :
    Forward sampleRun ∧ NoCollision sampleHash sampleRun ∧
      WithinLimits ⟨60, 10, 120⟩
        (exec (limiterStep sampleHash ⟨60, 10, 120⟩) (freshLimiter 0) sampleRun).served := by
  have hforward : Forward sampleRun := by
    simp only [Forward, sampleRun, List.pairwise_cons, LimiterAction.first, LimiterAction.last,
      sampleRequest]
    norm_num
  have htoken : ∀ r, .request r ∈ sampleRun → r.token = some ['k', '1'] := by
    intro r hr
    simp only [sampleRun, List.mem_cons, LimiterAction.request.injEq, reduceCtorEq,
      List.not_mem_nil, or_false, false_or] at hr
    cases hr with
    | inl hfirst => rw [hfirst]; rfl
    | inr hsecond => rw [hsecond]; rfl
  have hno : NoCollision sampleHash sampleRun := by
    intro r hr r' hr' token ht token' ht' _
    rw [htoken r hr] at ht
    rw [htoken r' hr'] at ht'
    cases ht
    cases ht'
    rfl
  exact ⟨hforward, hno, rate_limiter_bound sampleHash ⟨60, 10, 120⟩ 0 sampleRun hforward hno⟩

end Sample

end Engramia.Api
