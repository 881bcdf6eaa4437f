import Engramia.Library.Ranking
import Engramia.Library.OrderedDict
import Engramia.Library.Run

/-!
The queue of data subject requests, in memory or in the database. A listing filters, sorts and
cuts; the database cuts before it knows which requests are overdue, and the counts are taken
from a listing of a hundred, so what is old can be left out of both.

Instants are in microseconds. The timestamps of a queue are in one format and one zone, in which
they sort like the instants.
-/
namespace Engramia.Governance
open Engramia.Library

inductive DsrStatus where
  | pending
  | inProgress
  | completed
  | rejected
deriving DecidableEq, Repr

/-- `DSRRequest`, as far as a listing reads it; a deadline that does not parse is none. -/
structure DsrRequest where
  id : String
  tenantId : String
  status : DsrStatus
  createdAt : ℤ
  dueAt : Option ℤ
deriving DecidableEq, Repr

/-- What `ORDER BY created_at DESC` makes of the rows of a query with a limit. Requests of one
instant may come in any order, and in another for another limit. -/
structure DsrOrder where
  order : ℕ → List DsrRequest → List DsrRequest
  perm : ∀ limit rows, (order limit rows).Perm rows
  ranked : ∀ limit rows, Ranked DsrRequest.createdAt (order limit rows)

namespace DsrRequest
variable (now : ℤ) (r : DsrRequest)

def isOpen : Bool := r.status != .completed && r.status != .rejected

def overdue : Bool := r.isOpen && r.dueAt.any fun due => decide (due < now)

end DsrRequest

/-- Where a tracker keeps its requests. -/
inductive DsrStore where
  | memory
  | database (order : DsrOrder)

section Listings
variable (store : DsrStore) (now : ℤ) (rows : List DsrRequest) (tenantId : String)

def newestFirst (requests : List DsrRequest) : List DsrRequest :=
  sortedDesc DsrRequest.createdAt requests

/-- `_db_list` -/
def dbList (order : DsrOrder) (status : Option DsrStatus) (limit : ℕ) : List DsrRequest :=
  (order.order limit (rows.filter fun r =>
    r.tenantId = tenantId && status.all fun status => r.status = status)).take limit

def listRequests (status : Option DsrStatus) (overdueOnly : Bool) (limit : ℕ) :
    List DsrRequest :=
  let requests :=
    match store with
    | .memory => rows.filter fun r => r.tenantId = tenantId
    | .database order => dbList rows tenantId order status limit
  let requests :=
    match status with
    | some status => requests.filter fun r => r.status = status
    | none => requests
  let requests := if overdueOnly then requests.filter (·.overdue now) else requests
  (newestFirst requests).take limit

/-- The numbers of `pending_count`. -/
structure PendingCount where
  pending : ℕ
  inProgress : ℕ
  overdue : ℕ
deriving DecidableEq, Repr

def countRequests (requests : List DsrRequest) : PendingCount where
  pending := requests.countP fun r => r.status = .pending
  inProgress := requests.countP fun r => r.status = .inProgress
  overdue := requests.countP (·.overdue now)

/-- The default of `limit`. -/
def defaultLimit : ℕ := 100

def pendingCount : PendingCount :=
  countRequests now ((listRequests store now rows tenantId none false defaultLimit).filter
    DsrRequest.isOpen)

def tenantRequests : List DsrRequest := rows.filter fun r => r.tenantId = tenantId

end Listings

/-- The beginning of a ranking of some requests by their creation, the newest first. -/
def NewestOf (requests : List DsrRequest) (n : ℕ) (result : List DsrRequest) : Prop :=
  ∃ ranking, ranking.Perm requests ∧ Ranked DsrRequest.createdAt ranking ∧
    result = ranking.take n

/-- Both stores list the newest overdue requests, and the same ones, and count every open
request. -/
structure OverdueShown (order : DsrOrder) (now : ℤ) (rows : List DsrRequest) (tenantId : String)
    (n : ℕ) : Prop where
  newest : ∀ store ∈ [.memory, .database order],
    NewestOf ((tenantRequests rows tenantId).filter (·.overdue now)) n
      (listRequests store now rows tenantId none true n)
  same : listRequests (.database order) now rows tenantId none true n =
    listRequests .memory now rows tenantId none true n
  counted : ∀ store ∈ [.memory, .database order],
    pendingCount store now rows tenantId = countRequests now (tenantRequests rows tenantId)

/-- A listing of n that looks at n requests takes only overdue ones or leaves none behind. -/
def NoneCutOff (now : ℤ) (ranking : List DsrRequest) (n : ℕ) : Prop :=
  (∀ r ∈ ranking.take n, r.overdue now = true) ∨ ∀ r ∈ ranking.drop n, r.overdue now = false

/-- No request behind the first hundred is open. -/
def OpenWithin (ranking : List DsrRequest) : Prop :=
  ∀ r ∈ ranking.drop defaultLimit, r.isOpen = false

section Lists
variable {order : DsrOrder} {now : ℤ} {rows : List DsrRequest} {tenantId : String} {n : ℕ}

theorem dbList_all : dbList rows tenantId order none n =
    (order.order n (tenantRequests rows tenantId)).take n := by
  simp [dbList, tenantRequests]

theorem listRequests_memory : listRequests .memory now rows tenantId none true n =
    ((newestFirst (tenantRequests rows tenantId)).filter (·.overdue now)).take n := by
  rw [newestFirst, filter_sortedDesc]
  rfl

theorem listRequests_database : listRequests (.database order) now rows tenantId none true n =
    ((order.order n (tenantRequests rows tenantId)).take n).filter (·.overdue now) := by
  have hranked : Ranked DsrRequest.createdAt
      (((order.order n (tenantRequests rows tenantId)).take n).filter (·.overdue now)) :=
    (order.ranked n _).sublist (List.filter_sublist.trans (List.take_sublist n _))
  simp only [listRequests, dbList_all, if_true, newestFirst]
  rw [hranked.sortedDesc_eq, List.take_of_length_le (length_filter_take_le _ n _)]

theorem newestOf_memory : NewestOf ((tenantRequests rows tenantId).filter (·.overdue now)) n
    (listRequests .memory now rows tenantId none true n) := by
  refine ⟨_, sortedDesc_perm _ _, ranked_sortedDesc _ _, ?_⟩
  rw [listRequests_memory, newestFirst, filter_sortedDesc]

theorem isOpen_iff {r : DsrRequest} :
    r.isOpen = true ↔ r.status = .pending ∨ r.status = .inProgress := by
  rw [DsrRequest.isOpen]
  cases r.status with
  | pending | inProgress | completed | rejected => decide

theorem isOpen_of_overdue {r : DsrRequest} (h : r.overdue now = true) : r.isOpen = true :=
  (Bool.and_eq_true_iff.mp h).1

theorem countP_open {p : DsrRequest → Bool} (hp : ∀ r, p r = true → r.isOpen = true)
    (requests : List DsrRequest) :
    (requests.filter DsrRequest.isOpen).countP p = requests.countP p := by
  rw [List.countP_filter]
  apply List.countP_congr
  intro r _
  rw [Bool.and_eq_true, and_iff_left_of_imp (hp r)]

theorem countRequests_open (requests : List DsrRequest) :
    countRequests now (requests.filter DsrRequest.isOpen) = countRequests now requests := by
  rw [countRequests, countRequests, countP_open fun _ => isOpen_of_overdue,
    countP_open fun _ h => isOpen_iff.mpr (.inl (of_decide_eq_true h)),
    countP_open fun _ h => isOpen_iff.mpr (.inr (of_decide_eq_true h))]

theorem countRequests_take_iff {requests ranking : List DsrRequest}
    (hperm : ranking.Perm requests) {k : ℕ} :
    countRequests now (ranking.take k) = countRequests now requests ↔
      ∀ r ∈ ranking.drop k, r.isOpen = false := by
  have hsplit : ∀ p : DsrRequest → Bool,
      requests.countP p = (ranking.take k).countP p + (ranking.drop k).countP p := by
    intro p
    rw [← hperm.countP_eq, ← List.countP_append, List.take_append_drop]
  simp only [countRequests, PendingCount.mk.injEq, hsplit, Nat.left_eq_add, List.countP_eq_zero]
  constructor
  · intro h r hr
    cases hopen : r.isOpen with
    | false => rfl
    | true =>
        cases isOpen_iff.mp hopen with
        | inl hstatus => exact absurd (decide_eq_true hstatus) (h.1 r hr)
        | inr hstatus => exact absurd (decide_eq_true hstatus) (h.2.1 r hr)
  · intro h
    refine ⟨?_, ?_, ?_⟩
    · intro r hr hstatus
      have hopen := isOpen_iff.mpr (.inl (of_decide_eq_true hstatus))
      rw [h r hr] at hopen
      cases hopen
    · intro r hr hstatus
      have hopen := isOpen_iff.mpr (.inr (of_decide_eq_true hstatus))
      rw [h r hr] at hopen
      cases hopen
    · intro r hr hoverdue
      have hopen := isOpen_of_overdue hoverdue
      rw [h r hr] at hopen
      cases hopen

theorem pendingCount_memory : pendingCount .memory now rows tenantId =
    countRequests now ((newestFirst (tenantRequests rows tenantId)).take defaultLimit) :=
  countRequests_open _

theorem pendingCount_database : pendingCount (.database order) now rows tenantId =
    countRequests now
      ((order.order defaultLimit (tenantRequests rows tenantId)).take defaultLimit) := by
  have hranked : Ranked DsrRequest.createdAt
      ((order.order defaultLimit (tenantRequests rows tenantId)).take defaultLimit) :=
    (order.ranked defaultLimit _).sublist (List.take_sublist _ _)
  rw [pendingCount, countRequests_open]
  simp only [listRequests, dbList_all, Bool.false_eq_true, if_false, newestFirst]
  rw [hranked.sortedDesc_eq, List.take_take, Nat.min_self]

theorem sameOverdue_iff : listRequests (.database order) now rows tenantId none true n =
      listRequests .memory now rows tenantId none true n ↔
    NoneCutOff now (order.order n (tenantRequests rows tenantId)) n ∧
      ((order.order n (tenantRequests rows tenantId)).filter (·.overdue now)).take n =
        ((newestFirst (tenantRequests rows tenantId)).filter (·.overdue now)).take n := by
  rw [listRequests_database, listRequests_memory]
  exact filter_take_eq_iff_of_perm ((sortedDesc_perm _ _).trans (order.perm n _).symm)

theorem memoryCount_iff (now : ℤ) : pendingCount .memory now rows tenantId =
      countRequests now (tenantRequests rows tenantId) ↔
    OpenWithin (newestFirst (tenantRequests rows tenantId)) := by
  rw [pendingCount_memory]
  exact countRequests_take_iff (sortedDesc_perm _ _)

theorem databaseCount_iff (now : ℤ) : pendingCount (.database order) now rows tenantId =
      countRequests now (tenantRequests rows tenantId) ↔
    OpenWithin (order.order defaultLimit (tenantRequests rows tenantId)) := by
  rw [pendingCount_database]
  exact countRequests_take_iff (order.perm _ _)

theorem overdue_shown_iff (order : DsrOrder) (now : ℤ) (rows : List DsrRequest)
    (tenantId : String) (n : ℕ) :
    OverdueShown order now rows tenantId n ↔
      NoneCutOff now (order.order n (tenantRequests rows tenantId)) n ∧
        ((order.order n (tenantRequests rows tenantId)).filter (·.overdue now)).take n =
          ((newestFirst (tenantRequests rows tenantId)).filter (·.overdue now)).take n ∧
        OpenWithin (newestFirst (tenantRequests rows tenantId)) ∧
        OpenWithin (order.order defaultLimit (tenantRequests rows tenantId)) := by
  rw [← memoryCount_iff now, ← databaseCount_iff now, ← and_assoc,
    ← sameOverdue_iff]
  constructor
  · intro h
    exact ⟨h.same, h.counted _ List.mem_cons_self,
      h.counted _ (List.mem_cons_of_mem _ List.mem_cons_self)⟩
  · intro h
    refine ⟨?_, h.1, ?_⟩
    · intro store hstore
      cases List.mem_cons.mp hstore with
      | inl hmemory =>
          rw [hmemory]
          exact newestOf_memory
      | inr hdatabase =>
          rw [List.mem_singleton.mp hdatabase, h.1]
          exact newestOf_memory
    · intro store hstore
      cases List.mem_cons.mp hstore with
      | inl hmemory =>
          rw [hmemory]
          exact h.2.1
      | inr hdatabase =>
          rw [List.mem_singleton.mp hdatabase]
          exact h.2.2

/-- The database, with the order of the store for equal instants. -/
def storeOrder : DsrOrder where
  order _ rows := newestFirst rows
  perm _ rows := sortedDesc_perm _ rows
  ranked _ rows := ranked_sortedDesc _ rows

/-- An overdue request with a newer one that is in time, in a listing of one. -/
theorem overdue_request_hidden :
    ¬ ∀ (order : DsrOrder) (now : ℤ) (rows : List DsrRequest) (tenantId : String) (n : ℕ),
      OverdueShown order now rows tenantId n := by
  intro h
  have hsame := (h storeOrder 30
    [⟨"old", "acme", .pending, 0, some 10⟩, ⟨"new", "acme", .pending, 20, some 50⟩] "acme" 1).same
  exact absurd hsame (by decide)

theorem order_eq_newestFirst
    (hdistinct : ((tenantRequests rows tenantId).map DsrRequest.createdAt).Nodup) :
    order.order n (tenantRequests rows tenantId) = newestFirst (tenantRequests rows tenantId) := by
  apply List.Perm.eq_of_pairwise _ (order.ranked n _) (ranked_sortedDesc _ _)
    ((order.perm n _).trans (sortedDesc_perm _ _).symm)
  intro r r' hr hr' hle hle'
  exact List.inj_on_of_nodup_map hdistinct ((order.perm n _).mem_iff.mp hr)
    (mem_sortedDesc.mp hr') (Int.le_antisymm hle' hle)

end Lists

section Tracker

/-- What changes the queue. The id of a new request is a fresh one. -/
inductive DsrAction where
  | create (id tenantId : String) (now : ℤ)
  | updateStatus (id : String) (status : DsrStatus)

variable (sla : ℤ)

def dsrStep (queue : OrderedDict String DsrRequest) : DsrAction → OrderedDict String DsrRequest
  | .create id tenantId now => queue.set id ⟨id, tenantId, .pending, now, some (now + sla)⟩
  | .updateStatus id status =>
      match queue.get? id with
      | some r => queue.set id { r with status := status }
      | none => queue

/-- The requests of a queue after a run, the first to be made first. -/
def requestsAfter (run : List DsrAction) : List DsrRequest :=
  (exec (dsrStep sla) OrderedDict.empty run).entries.map Prod.snd

variable {sla : ℤ} {queue : OrderedDict String DsrRequest} {order : DsrOrder} {now : ℤ}

/-- A request falls due as long after its creation as every other. -/
def DueAfter (sla : ℤ) (r : DsrRequest) : Prop := r.dueAt = some (r.createdAt + sla)

theorem dueAfter_step (h : queue.All fun _ => DueAfter sla) (a : DsrAction) :
    (dsrStep sla queue a).All fun _ => DueAfter sla := by
  cases a with
  | create id tenantId now => exact OrderedDict.all_set.mpr ⟨rfl, h.mono fun _ _ hdue _ => hdue⟩
  | updateStatus id status =>
      rw [dsrStep]
      cases hget : queue.get? id with
      | none => exact h
      | some r =>
          have hold : DueAfter sla r := h.get? hget
          have hdue : DueAfter sla { r with status := status } := hold
          exact OrderedDict.all_set.mpr ⟨hdue, h.mono fun _ _ hother _ => hother⟩

theorem dueAfter_run (run : List DsrAction) : ∀ r ∈ requestsAfter sla run, DueAfter sla r := by
  have hstep : ∀ (queue : OrderedDict String DsrRequest) (a : DsrAction),
      (queue.All fun _ => DueAfter sla) → (dsrStep sla queue a).All fun _ => DueAfter sla :=
    fun _ a h => dueAfter_step h a
  have hall := (always_of_step hstep OrderedDict.all_empty run).last
  intro r hr
  obtain ⟨x, hx, hxr⟩ := List.mem_map.mp hr
  exact hxr ▸ hall x hx

def DsrRequest.inTime (now : ℤ) (r : DsrRequest) : Bool := r.isOpen && !r.overdue now

theorem older_of_overdue {r r' : DsrRequest} (hr : DueAfter sla r) (hr' : DueAfter sla r')
    (hoverdue : r.overdue now = true) (htime : r'.inTime now = true) :
    r.createdAt < r'.createdAt := by
  rw [DsrRequest.overdue, hr, Option.any_some, Bool.and_eq_true, decide_eq_true_eq] at hoverdue
  rw [DsrRequest.inTime, DsrRequest.overdue, hr', Option.any_some] at htime
  cases hopen : r'.isOpen with
  | false =>
      rw [hopen] at htime
      cases htime
  | true =>
      rw [hopen, Bool.true_and, Bool.true_and, Bool.not_eq_true', decide_eq_false_iff_not] at htime
      omega

theorem in_time_hide_overdue (run : List DsrAction) (tenantId : String) {n : ℕ}
    (hmany : n ≤ (tenantRequests (requestsAfter sla run) tenantId).countP (·.inTime now)) :
    listRequests (.database order) now (requestsAfter sla run) tenantId none true n = [] := by
  rw [listRequests_database, List.filter_eq_nil_iff]
  intro r hr hoverdue
  have hperm := order.perm n (tenantRequests (requestsAfter sla run) tenantId)
  have hranked := order.ranked n (tenantRequests (requestsAfter sla run) tenantId)
  have hdue : ∀ x ∈ order.order n (tenantRequests (requestsAfter sla run) tenantId),
      DueAfter sla x := fun x hx =>
    dueAfter_run run x (List.mem_of_mem_filter (hperm.mem_iff.mp hx))
  rw [← hperm.countP_eq] at hmany
  generalize order.order n (tenantRequests (requestsAfter sla run) tenantId) = ranking at *
  rw [← List.take_append_drop n ranking, Ranked, List.pairwise_append] at hranked
  have hnone : (ranking.drop n).countP (·.inTime now) = 0 := by
    rw [List.countP_eq_zero]
    intro x hx htime
    have holder := older_of_overdue (hdue r (List.mem_of_mem_take hr))
      (hdue x (List.mem_of_mem_drop hx)) hoverdue htime
    exact Int.not_lt.mpr (hranked.2.2 r hr x hx) holder
  have hlate : r.inTime now = false := by
    rw [DsrRequest.inTime, hoverdue, Bool.not_true, Bool.and_false]
  have hfew : (ranking.take n).countP (·.inTime now) < (ranking.take n).length := by
    apply Nat.lt_of_le_of_ne List.countP_le_length
    intro hall
    have htime := List.countP_eq_length.mp hall r hr
    rw [hlate] at htime
    cases htime
  rw [← List.take_append_drop n ranking, List.countP_append, hnone] at hmany
  have hlength := List.length_take_le n ranking
  omega

end Tracker

end Engramia.Governance
