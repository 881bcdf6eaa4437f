import Engramia.Governance.AuditLog
import Engramia.Governance.ScrubPatterns

/-!
The audit scrubber. A row is written when its address or its detail changes, the update goes by
the key of the row, and what the transformation has been over once it leaves alone. So a dry run
counts the rows that a real run changes, and a second run changes none.
-/
namespace Engramia.Governance
open Engramia.Library Engramia.Library.Regex Engramia.Storage

attribute [local instance] text_lawfulBEq

/-- `_PII_KEYS` -/
def piiKeys : List Text :=
  ["email", "user_email", "subject_email", "name", "full_name", "first_name", "last_name", "ip",
    "ip_address", "remote_addr", "client_ip"].map String.toList

section Values
variable (U : UnicodeClasses)

mutual

/-- `_scrub_value` -/
def scrubValue : Json Text → Json Text
  | .obj fields => .obj (scrubFields fields)
  | .arr items => .arr (scrubItems items)
  | .str text => .str (scrubText U text)
  | .null => .null
  | .bool b => .bool b
  | .int n => .int n
  | .num q => .num q

def scrubItems : List (Json Text) → List (Json Text)
  | [] => []
  | v :: items => scrubValue v :: scrubItems items

def scrubFields : List (Text × Json Text) → List (Text × Json Text)
  | [] => []
  | (k, v) :: fields =>
      (k, if k ∈ piiKeys then .str redacted else scrubValue v) :: scrubFields fields

end

mutual

/-- No string of a document has a match, and under a key of the list stands the placeholder. -/
def Scrubbed : Json Text → Prop
  | .obj fields => ScrubbedFields fields
  | .arr items => ScrubbedItems items
  | .str text => Unmatched U text
  | _ => True

def ScrubbedItems : List (Json Text) → Prop
  | [] => True
  | v :: items => Scrubbed v ∧ ScrubbedItems items

def ScrubbedFields : List (Text × Json Text) → Prop
  | [] => True
  | (k, v) :: fields =>
      (k ∈ piiKeys → v = .str redacted) ∧ Scrubbed v ∧ ScrubbedFields fields

end

theorem redacted_unmatched : Unmatched U redacted := by
  have hclean : ∀ r, Framed (placeholder U) r → r.Clean redacted := by
    intro r hr
    have htext : (placeholder U).text ++ [] = redacted := List.append_nil _
    rw [Clean, ← htext]
    exact hr.clean_placeholder (cleanFrom_nil hr.consuming)
  exact ⟨hclean _ (emailRe_framed U), hclean _ (ipRe_framed U)⟩

mutual

theorem scrubValue_scrubbed (v : Json Text) : Scrubbed U (scrubValue U v) := by
  cases v with
  | null | bool _ | int _ | num _ => trivial
  | str text => exact scrubText_unmatched U text
  | arr items =>
      rw [scrubValue, Scrubbed]
      exact scrubItems_scrubbed items
  | obj fields =>
      rw [scrubValue, Scrubbed]
      exact scrubFields_scrubbed fields

theorem scrubItems_scrubbed (items : List (Json Text)) :
    ScrubbedItems U (scrubItems U items) := by
  cases items with
  | nil => trivial
  | cons v items => exact ⟨scrubValue_scrubbed v, scrubItems_scrubbed items⟩

theorem scrubFields_scrubbed (fields : List (Text × Json Text)) :
    ScrubbedFields U (scrubFields U fields) := by
  cases fields with
  | nil => trivial
  | cons x fields =>
      obtain ⟨k, v⟩ := x
      rw [scrubFields, ScrubbedFields]
      by_cases hk : k ∈ piiKeys
      · rw [if_pos hk]
        exact ⟨fun _ => rfl, redacted_unmatched U, scrubFields_scrubbed fields⟩
      · rw [if_neg hk]
        exact ⟨fun h => absurd h hk, scrubValue_scrubbed v, scrubFields_scrubbed fields⟩

end

mutual

theorem scrubValue_of_scrubbed (v : Json Text) (h : Scrubbed U v) : scrubValue U v = v := by
  cases v with
  | null | bool _ | int _ | num _ => rfl
  | str text => rw [scrubValue, scrubText_of_unmatched U h]
  | arr items => rw [scrubValue, scrubItems_of_scrubbed items h]
  | obj fields => rw [scrubValue, scrubFields_of_scrubbed fields h]

theorem scrubItems_of_scrubbed (items : List (Json Text)) (h : ScrubbedItems U items) :
    scrubItems U items = items := by
  cases items with
  | nil => rfl
  | cons v items =>
      rw [scrubItems, scrubValue_of_scrubbed v h.1, scrubItems_of_scrubbed items h.2]

theorem scrubFields_of_scrubbed (fields : List (Text × Json Text)) (h : ScrubbedFields U fields) :
    scrubFields U fields = fields := by
  cases fields with
  | nil => rfl
  | cons x fields =>
      obtain ⟨k, v⟩ := x
      rw [scrubFields, scrubFields_of_scrubbed fields h.2.2]
      by_cases hk : k ∈ piiKeys
      · rw [if_pos hk, h.1 hk]
      · rw [if_neg hk, scrubValue_of_scrubbed v h.2.1]

end

end Values

section Rows
variable (U : UnicodeClasses)

/-- `new_ip` -/
def newIp : Option Text → Option Text
  | none => none
  | some ip => if ip ≠ [] ∧ ip ≠ redacted then some redacted else some ip

/-- What a row is updated with, unless it is skipped. -/
def scrubRow (r : AuditLogEntry) : Option (Option Text × Option (Json Text)) :=
  let ip := newIp r.ipAddress
  let detail := r.detail.map (scrubValue U)
  if ip = r.ipAddress ∧ detail = r.detail then none
  else some (ip, if detail = r.detail then r.detail else detail)

/-- The columns that `_apply_update` sets; without a detail it leaves that column. -/
def AuditLogEntry.written (ip : Option Text) (detail : Option (Json Text)) (r : AuditLogEntry) :
    AuditLogEntry :=
  match detail with
  | none => { r with ipAddress := ip }
  | some detail => { r with ipAddress := ip, detail := some detail }

/-- `_apply_update`, by the key of a row -/
def AuditTable.applyUpdate (table : AuditTable) (id : ℕ) (ip : Option Text)
    (detail : Option (Json Text)) : AuditTable :=
  have hids : (table.rows.map fun r => if r.id = id then r.written ip detail else r).map (·.id) =
      table.rows.map (·.id) := by
    rw [List.map_map]
    apply List.map_congr_left
    intro r _
    rw [Function.comp_apply]
    split
    case isTrue => cases detail <;> rfl
    case isFalse => rfl
  { table with
    rows := table.rows.map fun r => if r.id = id then r.written ip detail else r
    drawn := by
      intro r hr
      have hid := List.mem_map_of_mem (f := AuditLogEntry.id) hr
      rw [hids] at hid
      obtain ⟨r', hr', heq⟩ := List.mem_map.mp hid
      exact heq ▸ table.drawn r' hr'
    unique := by
      rw [hids]
      exact table.unique }

structure ScrubResult where
  rowsScrubbed : ℕ
  dryRun : Bool
deriving DecidableEq

/-- The loop of `scrub` over the rows that were fetched. -/
def scrubLoop (dryRun : Bool) : List AuditLogEntry → AuditTable × ℕ → AuditTable × ℕ
  | [], s => s
  | r :: rows, s =>
      match scrubRow U r with
      | none => scrubLoop dryRun rows s
      | some (ip, detail) =>
          scrubLoop dryRun rows
            (if dryRun then s.1 else s.1.applyUpdate r.id ip detail, s.2 + 1)

/-- `AuditScrubber.scrub` -/
def scrub (c : ScrubCutoff) (dryRun : Bool) (table : AuditTable) : AuditTable × ScrubResult :=
  let s := scrubLoop U dryRun (selectedForScrub c table) (table, 0)
  (s.1, ⟨s.2, dryRun⟩)

/-- No address is left in a row, and its detail is scrubbed. -/
def RowClean (r : AuditLogEntry) : Prop :=
  (∀ ip ∈ r.ipAddress, ip = [] ∨ ip = redacted) ∧ ∀ detail ∈ r.detail, Scrubbed U detail

def Eligible (c : ScrubCutoff) (r : AuditLogEntry) : Prop :=
  r.createdAt < c.cutoff.isoformat

instance decidableEligible (c : ScrubCutoff) (r : AuditLogEntry) : Decidable (Eligible c r) :=
  inferInstanceAs (Decidable (_ < _))

/-- How many rows of a table are not in another one as they are. -/
def rowsChanged (table table' : AuditTable) : ℕ :=
  table.rows.countP fun r => r ∉ table'.rows

end Rows

section Row
variable {U : UnicodeClasses} {r : AuditLogEntry}

/-- A row after a real run that fetches it. -/
def scrubbedRow (U : UnicodeClasses) (r : AuditLogEntry) : AuditLogEntry :=
  { r with ipAddress := newIp r.ipAddress, detail := r.detail.map (scrubValue U) }

theorem scrubRow_none (h : scrubRow U r = none) : scrubbedRow U r = r := by
  rw [scrubRow] at h
  split at h
  case isTrue hsame => rw [scrubbedRow, hsame.1, hsame.2]
  case isFalse => cases h

theorem scrubRow_some {ip : Option Text} {detail : Option (Json Text)}
    (h : scrubRow U r = some (ip, detail)) :
    r.written ip detail = scrubbedRow U r ∧ scrubbedRow U r ≠ r := by
  rw [scrubRow] at h
  split at h
  case isTrue => cases h
  case isFalse hchanged =>
      obtain ⟨rfl, rfl⟩ := Prod.mk.inj (Option.some.inj h)
      have hdetail : (if r.detail.map (scrubValue U) = r.detail then r.detail
          else r.detail.map (scrubValue U)) = r.detail.map (scrubValue U) := by
        split
        case isTrue hsame => exact hsame.symm
        case isFalse => rfl
      constructor
      · rw [hdetail]
        cases hold : r.detail with
        | none => simp only [AuditLogEntry.written, scrubbedRow, hold, Option.map_none]
        | some v => simp only [AuditLogEntry.written, scrubbedRow, hold, Option.map_some]
      · intro heq
        exact hchanged ⟨congrArg (·.ipAddress) heq, congrArg (·.detail) heq⟩

theorem newIp_clean {ip : Text} (h : ip ∈ newIp r.ipAddress) : ip = [] ∨ ip = redacted := by
  cases hold : r.ipAddress with
  | none =>
      rw [hold] at h
      cases h
  | some old =>
      rw [hold, newIp] at h
      split at h
      case isTrue => exact .inr (Option.some.inj h).symm
      case isFalse hkept =>
          rw [← Option.some.inj h]
          by_cases hempty : old = []
          · exact .inl hempty
          · exact .inr (not_not.mp fun hne => hkept ⟨hempty, hne⟩)

theorem scrubbedRow_clean : RowClean U (scrubbedRow U r) := by
  constructor
  · exact fun ip hip => newIp_clean hip
  · intro detail hdetail
    obtain ⟨v, _, rfl⟩ := Option.mem_map.mp hdetail
    exact scrubValue_scrubbed U v

theorem scrubRow_of_clean (h : RowClean U r) : scrubRow U r = none := by
  have hip : newIp r.ipAddress = r.ipAddress := by
    cases hold : r.ipAddress with
    | none => rfl
    | some ip =>
        rw [newIp, if_neg]
        intro hboth
        cases h.1 ip hold with
        | inl hempty => exact hboth.1 hempty
        | inr hdone => exact hboth.2 hdone
  have hdetail : r.detail.map (scrubValue U) = r.detail := by
    cases hold : r.detail with
    | none => rfl
    | some v => rw [Option.map_some, scrubValue_of_scrubbed U v (h.2 v hold)]
  rw [scrubRow]
  exact if_pos ⟨hip, hdetail⟩

end Row

section Loop
variable {U : UnicodeClasses} {dryRun : Bool} {rows : List AuditLogEntry} {s : AuditTable × ℕ}

theorem scrubLoop_count (rows : List AuditLogEntry) (s : AuditTable × ℕ) :
    (scrubLoop U dryRun rows s).2 = s.2 + rows.countP fun r => (scrubRow U r).isSome := by
  induction rows generalizing s with
  | nil => rfl
  | cons r rows ih =>
      rw [scrubLoop, List.countP_cons]
      cases hrow : scrubRow U r with
      | none =>
          dsimp only
          rw [ih]
          rfl
      | some x =>
          obtain ⟨ip, detail⟩ := x
          dsimp only
          rw [ih, if_pos Option.isSome_some]
          omega

theorem scrubLoop_dry (rows : List AuditLogEntry) (s : AuditTable × ℕ) :
    (scrubLoop U true rows s).1 = s.1 := by
  induction rows generalizing s with
  | nil => rfl
  | cons r rows ih =>
      rw [scrubLoop]
      cases scrubRow U r with
      | none => exact ih s
      | some x => exact ih _

theorem scrubLoop_skips (h : ∀ r ∈ rows, scrubRow U r = none) :
    scrubLoop U dryRun rows s = s := by
  induction rows with
  | nil => rfl
  | cons r rows ih =>
      obtain ⟨hr, hrows⟩ := List.forall_mem_cons.mp h
      rw [scrubLoop, hr]
      exact ih hrows

theorem scrubLoop_rows (hids : (rows.map AuditLogEntry.id).Nodup)
    (hfetched : ∀ r ∈ rows, ∀ x ∈ s.1.rows, x.id = r.id → x = r) :
    (scrubLoop U false rows s).1.rows =
      s.1.rows.map fun x => if x.id ∈ rows.map AuditLogEntry.id then scrubbedRow U x else x := by
  induction rows generalizing s with
  | nil =>
      rw [scrubLoop]
      refine ((List.map_congr_left fun x _ => ?_).trans (List.map_id _)).symm
      exact if_neg List.not_mem_nil
  | cons r rows ih =>
      obtain ⟨hid, hids⟩ := List.nodup_cons.mp hids
      obtain ⟨hr, hfetched⟩ := List.forall_mem_cons.mp hfetched
      have hone : ∀ x ∈ s.1.rows, x.id = r.id → scrubbedRow U x = scrubbedRow U r :=
        fun x hx hxr => congrArg (scrubbedRow U) (hr x hx hxr)
      cases hrow : scrubRow U r with
      | none =>
          rw [scrubLoop, hrow]
          rw [ih hids hfetched]
          apply List.map_congr_left
          intro x hx
          rw [List.map_cons]
          by_cases hxr : x.id = r.id
          · rw [if_neg (hxr ▸ hid), if_pos (hxr ▸ List.mem_cons_self), hr x hx hxr,
              scrubRow_none hrow]
          · simp only [List.mem_cons, hxr, false_or]
      | some y =>
          obtain ⟨ip, detail⟩ := y
          have hwritten := (scrubRow_some hrow).1
          have htable : (s.1.applyUpdate r.id ip detail).rows =
              s.1.rows.map fun x => if x.id = r.id then scrubbedRow U x else x := by
            apply List.map_congr_left
            intro x hx
            split
            case isTrue hxr => rw [hr x hx hxr, hwritten]
            case isFalse => rfl
          have hlater : ∀ r' ∈ rows, ∀ x ∈ (s.1.applyUpdate r.id ip detail).rows, x.id = r'.id →
              x = r' := by
            intro r' hr' x hx hxr'
            rw [htable] at hx
            obtain ⟨x₀, hx₀, rfl⟩ := List.mem_map.mp hx
            by_cases hxr : x₀.id = r.id
            · rw [if_pos hxr] at hxr'
              have hmem : r'.id ∈ rows.map AuditLogEntry.id := List.mem_map_of_mem hr'
              rw [← hxr', show (scrubbedRow U x₀).id = x₀.id from rfl, hxr] at hmem
              exact absurd hmem hid
            · rw [if_neg hxr] at hxr' ⊢
              exact hfetched r' hr' x₀ hx₀ hxr'
          rw [scrubLoop, hrow]
          dsimp only
          rw [if_neg Bool.false_ne_true, ih hids hlater, htable, List.map_map]
          apply List.map_congr_left
          intro x hx
          rw [Function.comp_apply, List.map_cons]
          by_cases hxr : x.id = r.id
          · rw [if_pos hxr, if_neg (show (scrubbedRow U x).id ∉ _ from hxr ▸ hid),
              if_pos (hxr ▸ List.mem_cons_self)]
          · simp only [hxr, if_false, List.mem_cons, false_or]

end Loop

section Runs
variable {U : UnicodeClasses} {c : ScrubCutoff} {table : AuditTable}

theorem mem_selected {r : AuditLogEntry} :
    r ∈ selectedForScrub c table ↔ r ∈ table.rows ∧ Eligible c r := by
  rw [selectedForScrub, List.mem_filter, decide_eq_true_eq, Eligible]

theorem eq_of_id {r r' : AuditLogEntry} (hr : r ∈ table.rows) (hr' : r' ∈ table.rows)
    (h : r.id = r'.id) : r = r' :=
  List.inj_on_of_nodup_map table.unique hr hr' h

theorem scrub_rows (U : UnicodeClasses) (c : ScrubCutoff) (table : AuditTable) :
    (scrub U c false table).1.rows =
      table.rows.map fun r => if Eligible c r then scrubbedRow U r else r := by
  have hids : ((selectedForScrub c table).map AuditLogEntry.id).Nodup :=
    table.unique.sublist (List.filter_sublist.map _)
  rw [scrub, scrubLoop_rows hids]
  · apply List.map_congr_left
    intro r hr
    have hmem : r.id ∈ (selectedForScrub c table).map AuditLogEntry.id ↔ Eligible c r := by
      rw [List.mem_map]
      constructor
      · intro h
        obtain ⟨r', hr', hid⟩ := h
        obtain ⟨hrow, heligible⟩ := mem_selected.mp hr'
        exact eq_of_id hrow hr hid ▸ heligible
      · intro h
        exact ⟨r, mem_selected.mpr ⟨hr, h⟩, rfl⟩
    simp only [hmem]
  · intro r hr x hx hid
    exact eq_of_id hx (mem_selected.mp hr).1 hid

theorem scrub_count (U : UnicodeClasses) (c : ScrubCutoff) (dryRun : Bool) (table : AuditTable) :
    (scrub U c dryRun table).2.rowsScrubbed =
      (selectedForScrub c table).countP fun r => (scrubRow U r).isSome := by
  rw [scrub, scrubLoop_count, Nat.zero_add]

theorem not_mem_scrub_iff {r : AuditLogEntry} (hr : r ∈ table.rows) :
    r ∉ (scrub U c false table).1.rows ↔ Eligible c r ∧ (scrubRow U r).isSome := by
  rw [scrub_rows]
  constructor
  · intro hgone
    by_cases heligible : Eligible c r
    · refine ⟨heligible, ?_⟩
      cases hrow : scrubRow U r with
      | none =>
          refine absurd (List.mem_map.mpr ⟨r, hr, ?_⟩) hgone
          rw [if_pos heligible, scrubRow_none hrow]
      | some x => rfl
    · refine absurd (List.mem_map.mpr ⟨r, hr, ?_⟩) hgone
      exact if_neg heligible
  · intro h hmem
    obtain ⟨r', hr', heq⟩ := List.mem_map.mp hmem
    obtain ⟨⟨ip, detail⟩, hrow⟩ := Option.isSome_iff_exists.mp h.2
    have hid : r'.id = r.id := by
      rw [← heq]
      split <;> rfl
    rw [eq_of_id hr' hr hid, if_pos h.1] at heq
    exact (scrubRow_some hrow).2 heq

theorem scrub_count_changed (U : UnicodeClasses) (c : ScrubCutoff) (dryRun : Bool)
    (table : AuditTable) :
    (scrub U c dryRun table).2.rowsScrubbed =
      rowsChanged table (scrub U c false table).1 := by
  rw [scrub_count, rowsChanged, selectedForScrub, List.countP_filter]
  apply List.countP_congr
  intro r hr
  rw [decide_eq_true_eq, not_mem_scrub_iff hr, Bool.and_eq_true, decide_eq_true_eq, Eligible,
    and_comm]

theorem scrub_clean {r : AuditLogEntry} (hr : r ∈ (scrub U c false table).1.rows)
    (heligible : Eligible c r) : RowClean U r := by
  rw [scrub_rows] at hr
  obtain ⟨r₀, _, rfl⟩ := List.mem_map.mp hr
  by_cases h : Eligible c r₀
  · rw [if_pos h]
    exact scrubbedRow_clean
  · rw [if_neg h] at heligible
    exact absurd heligible h

/-- A dry run changes nothing and reports what the real run at its cutoff changes. After that
run every eligible row is clean, and another one changes no row and reports none. -/
theorem audit_scrub_idempotent (U : UnicodeClasses) (c : ScrubCutoff) (table : AuditTable) :
    (scrub U c true table).1 = table ∧
      (scrub U c true table).2.rowsScrubbed = rowsChanged table (scrub U c false table).1 ∧
      (scrub U c false table).2.rowsScrubbed = rowsChanged table (scrub U c false table).1 ∧
      (∀ r ∈ (scrub U c false table).1.rows, Eligible c r → RowClean U r) ∧
      scrub U c false (scrub U c false table).1 = ((scrub U c false table).1, ⟨0, false⟩) := by
  refine ⟨scrubLoop_dry _ _, scrub_count_changed U c true table,
    scrub_count_changed U c false table, fun r hr heligible => scrub_clean hr heligible, ?_⟩
  have hskips : ∀ r ∈ selectedForScrub c (scrub U c false table).1, scrubRow U r = none := by
    intro r hr
    obtain ⟨hrow, heligible⟩ := mem_selected.mp hr
    exact scrubRow_of_clean (scrub_clean hrow heligible)
  rw [scrub, scrubLoop_skips hskips]

end Runs

end Engramia.Governance
