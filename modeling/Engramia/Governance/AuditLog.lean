import Engramia.Library.DbStamp
import Engramia.Library.Json
import Engramia.Storage.Paths

/-!
The audit log and the cutoffs of its two jobs. An event is stored with `now()::text`, the jobs
compare that column with a cutoff in ISO form, and on one day every stored instant is before every
ISO text. So both jobs take the whole UTC day of their cutoff, and never leave anything older.
-/
namespace Engramia.Governance
open Engramia.Library Engramia.Storage

section Definitions

/-- What `log_db_event` is given. -/
structure AuditEvent where
  tenantId : Text
  projectId : Option Text
  action : Text
  keyId : Option Text
  actorUserId : Option Text
  resourceType : Option Text
  resourceId : Option Text
  ipAddress : Option Text
  detail : Option (Json Text)
deriving DecidableEq

structure AuditLogEntry extends AuditEvent where
  id : ℕ
  createdAt : Text
deriving DecidableEq

/-- The table, whose key is a sequence. -/
structure AuditTable where
  rows : List AuditLogEntry
  nextId : ℕ
  drawn : ∀ r ∈ rows, r.id < nextId
  unique : (rows.map (·.id)).Nodup

/-- An empty detail is stored as none. -/
def storedDetail : Option (Json Text) → Option (Json Text)
  | some (.obj []) => none
  | detail => detail

/-- The row of an event. -/
def auditRow (id : ℕ) (now : DbStamp) (e : AuditEvent) : AuditLogEntry :=
  { e with
    detail := storedDetail e.detail
    id := id
    createdAt := now.text }

/-- `log_db_event`, which swallows a failure. -/
def logDbEvent (fails : Bool) (now : DbStamp) (e : AuditEvent) (table : AuditTable) : AuditTable :=
  if fails then table
  else
    { rows := table.rows ++ [auditRow table.nextId now e]
      nextId := table.nextId + 1
      drawn := by
        intro r hr
        cases List.mem_append.mp hr with
        | inl hr => exact Nat.lt_succ_of_lt (table.drawn r hr)
        | inr hr =>
            rw [List.mem_singleton.mp hr]
            exact Nat.lt_succ_self table.nextId
      unique := by
        rw [List.map_append, List.nodup_append]
        refine ⟨table.unique, List.nodup_singleton _, ?_⟩
        intro i hi j hj heq
        obtain ⟨r, hr, rfl⟩ := List.mem_map.mp hi
        have hlt := table.drawn r hr
        rw [heq, List.mem_singleton.mp hj] at hlt
        exact absurd hlt (lt_irrefl table.nextId) }

/-- A run of `compact_audit_log`, with what `strftime` makes of its cutoff. -/
structure Compaction where
  now : ℚ
  retentionDays : ℤ
  cutoff : UtcStamp
  cutoffFloor : cutoff.seconds = (now - retentionDays * 86400).floor

/-- The instant that the rows are to be older than. -/
def Compaction.instant (c : Compaction) : ℚ :=
  c.now - c.retentionDays * 86400

structure CompactResult where
  deletedCount : ℕ
  dryRun : Bool
deriving DecidableEq

def Compaction.takes (c : Compaction) (tenantId : Text) (r : AuditLogEntry) : Bool :=
  r.tenantId = tenantId && r.createdAt < c.cutoff.text

/-- `compact_audit_log` on a database -/
def compactAuditLog (c : Compaction) (tenantId : Text) (dryRun : Bool) (table : AuditTable) :
    AuditTable × CompactResult :=
  if dryRun then (table, ⟨table.rows.countP (c.takes tenantId), true⟩)
  else
    ({ table with
        rows := table.rows.filter fun r => !c.takes tenantId r
        drawn := fun r hr => table.drawn r (List.mem_of_mem_filter hr)
        unique := table.unique.sublist (List.filter_sublist.map _) },
      ⟨table.rows.countP (c.takes tenantId), false⟩)

/-- The cutoff of a run of `scrub`. -/
structure ScrubCutoff where
  now : DbStamp
  olderThanDays : ℤ
  cutoff : DbStamp
  cutoffTime : cutoff.time = now.time - olderThanDays * 86400

/-- The rows that `scrub` fetches. -/
def selectedForScrub (c : ScrubCutoff) (table : AuditTable) : List AuditLogEntry :=
  table.rows.filter fun r => r.createdAt < c.cutoff.isoformat

/-- A row goes when it was created before the instant, and only then, up to one second. -/
def CutsAt (goes : Prop) (created instant : ℚ) : Prop :=
  (goes → created < instant + 1) ∧ (created + 1 ≤ instant → goes)

/-- Created after the instant, on the UTC day of the cutoff. -/
def LaterThatDay (created : DbStamp) (cutoff : UtcStamp) (instant : ℚ) : Prop :=
  created.utc.dayNumber = cutoff.dayNumber ∧ instant + 1 ≤ created.time

end Definitions

section Cutoffs
variable {created : DbStamp} {cutoff : UtcStamp} {instant : ℚ}

/-- What takes the whole day of its cutoff cuts at the instant unless a row came later that
day. -/
theorem cutsAt_day_iff (hfloor : (cutoff.seconds : ℚ) ≤ instant)
    (hsecond : instant < cutoff.seconds + 1) :
    CutsAt (created.utc.dayNumber ≤ cutoff.dayNumber) created.time instant ↔
      ¬ LaterThatDay created cutoff instant := by
  constructor
  · intro h hlater
    exact absurd (h.1 hlater.1.le) (not_lt.mpr hlater.2)
  · intro hnot
    constructor
    · intro hday
      cases Nat.lt_or_eq_of_le hday with
      | inl hbefore =>
          have hseconds : created.utc.seconds + 1 ≤ cutoff.seconds :=
            UtcStamp.seconds_lt_of_day hbefore
          have hcast : (created.utc.seconds : ℚ) + 1 ≤ cutoff.seconds := by exact_mod_cast hseconds
          have hcreated := DbStamp.time_lt (a := created)
          linarith
      | inr hsame => exact not_le.mp fun hlate => hnot ⟨hsame, hlate⟩
    · intro hold
      by_contra hday
      have hseconds : cutoff.seconds + 1 ≤ created.utc.seconds :=
        UtcStamp.seconds_lt_of_day (not_le.mp hday)
      have hcast : (cutoff.seconds : ℚ) + 1 ≤ created.utc.seconds := by exact_mod_cast hseconds
      have hcreated := DbStamp.seconds_le_time (a := created)
      linarith

theorem Compaction.instant_bounds (c : Compaction) :
    (c.cutoff.seconds : ℚ) ≤ c.instant ∧ c.instant < c.cutoff.seconds + 1 := by
  have habove := Rat.lt_floor_add_one c.instant
  rw [Int.cast_add, Int.cast_one] at habove
  rw [c.cutoffFloor]
  exact ⟨Rat.floor_le c.instant, habove⟩

end Cutoffs

section Jobs
variable {table : AuditTable} {id : ℕ} {now : DbStamp} {e : AuditEvent}

theorem mem_logDbEvent : auditRow table.nextId now e ∈ (logDbEvent false now e table).rows :=
  List.mem_append_right _ (List.mem_singleton_self _)

theorem deleted_iff (c : Compaction) (h : auditRow id now e ∈ table.rows) :
    auditRow id now e ∉ (compactAuditLog c e.tenantId false table).1.rows ↔
      now.utc.dayNumber ≤ c.cutoff.dayNumber := by
  have htakes : c.takes e.tenantId (auditRow id now e) = true ↔
      now.utc.dayNumber ≤ c.cutoff.dayNumber := by
    rw [← DbStamp.text_lt_iff, Compaction.takes, Bool.and_eq_true, decide_eq_true_eq,
      decide_eq_true_eq]
    exact and_iff_right rfl
  rw [← htakes]
  show auditRow id now e ∉ table.rows.filter _ ↔ _
  rw [List.mem_filter, and_iff_right h, Bool.not_eq_true', Bool.not_eq_false]

theorem selected_iff (c : ScrubCutoff) (h : auditRow id now e ∈ table.rows) :
    auditRow id now e ∈ selectedForScrub c table ↔
      now.utc.dayNumber ≤ c.cutoff.utc.dayNumber := by
  rw [← DbStamp.text_lt_isoformat_iff, selectedForScrub, List.mem_filter, and_iff_right h,
    decide_eq_true_eq]
  exact Iff.rfl

end Jobs

section SameDay

/-- An hour of the first of March 2026. -/
def marchHour (hour : ℕ) (h : hour < 24) : UtcStamp where
  year := 2026
  month := 3
  day := 1
  hour := hour
  minute := 0
  second := 0
  yearValid := by decide
  monthValid := by decide
  dayValid := by decide
  hourValid := h
  minuteValid := by decide
  secondValid := by decide

def lateEvening : DbStamp where
  utc := marchHour 23 (by decide)
  micro := 0
  microValid := by decide

/-- A job with 90 days of retention whose cutoff is ten in the morning of that day. -/
def ninetyDays : Compaction where
  now := (marchHour 10 (by decide)).seconds + 90 * 86400
  retentionDays := 90
  cutoff := marchHour 10 (by decide)
  cutoffFloor := by
    have hninety : ((90 : ℤ) : ℚ) * 86400 = 90 * 86400 := by norm_num
    rw [hninety, add_sub_cancel_right]
    exact (Rat.floor_intCast _).symm

def keyCreated : AuditEvent where
  tenantId := "acme".toList
  projectId := none
  action := "key_created".toList
  keyId := none
  actorUserId := none
  resourceType := none
  resourceId := none
  ipAddress := none
  detail := none

def emptyLog : AuditTable where
  rows := []
  nextId := 1
  drawn := fun _ h => absurd h List.not_mem_nil
  unique := List.nodup_nil

theorem ninetyDays_instant : ninetyDays.instant = (marchHour 10 (by decide)).seconds := by
  rw [Compaction.instant, ninetyDays]
  norm_num

theorem lateEvening_time : lateEvening.time = (marchHour 10 (by decide)).seconds + 46800 := by
  have hday : (marchHour 23 (by decide)).dayNumber = (marchHour 10 (by decide)).dayNumber := rfl
  have hevening : (marchHour 23 (by decide)).secondOfDay = 82800 := rfl
  have hmorning : (marchHour 10 (by decide)).secondOfDay = 36000 := rfl
  rw [DbStamp.time, lateEvening, UtcStamp.seconds, UtcStamp.seconds, hday, hevening, hmorning]
  push_cast
  ring

end SameDay

end Engramia.Governance
