import Engramia.Library.JsonDump
import Engramia.Library.Lines
import Engramia.Library.Lists
import Mathlib.Algebra.GroupWithZero.Nat
import Mathlib.Algebra.Order.BigOperators.Group.List
import Mathlib.Algebra.Order.Group.Nat
import Mathlib.Data.List.Nodup

/-!
The backup of a tenant, a stream of JSON lines: a header, the rows table by table, a line for
each table that fails, and a footer with the counts. Each table is read by a query of its own,
so that what the database holds is what a table holds when it is read. A client that goes away
ends the stream early.
-/
namespace Engramia.Governance.Backup
open Library.JsonText Library.Lines

/-- A column of a row as the driver yields it. The encoder writes what it does not know by its
`str`. -/
inductive Cell where
  | json (v : Value)
  | other (str : CodePoints)

def Cell.value : Cell → Value
  | .json v => v
  | .other str => .str str

def Cell.str? : Cell → Option CodePoints
  | .json v => v.str?
  | .other _ => none

def Cell.isNull : Cell → Bool
  | .json .null => true
  | _ => false

/-- A row of a table, by its columns. -/
abbrev Record : Type := String → Cell

/-- What the rows of a table are restricted to besides the tenant. -/
inductive Restriction where
  | none
  | recent (column : String)
  | live (column : String)

structure Table where
  name : String
  columns : List String
  tenantColumn : String
  restriction : Restriction

/-- `_BACKUP_TABLES` -/
def backupTables : List Table :=
  [{ name := "memory_data",
     columns := ["tenant_id", "project_id", "key", "value", "classification", "source", "run_id",
       "author", "redacted", "expires_at", "created_at"],
     tenantColumn := "tenant_id", restriction := .none },
   { name := "memory_embeddings",
     columns := ["tenant_id", "project_id", "key", "embedding"],
     tenantColumn := "tenant_id", restriction := .none },
   { name := "analytics_events",
     columns := ["tenant_id", "project_id", "kind", "ts", "payload", "eval_score"],
     tenantColumn := "tenant_id", restriction := .none },
   { name := "analytics_rollups",
     columns := ["tenant_id", "project_id", "window", "period_start", "learn_total",
       "learn_avg_eval", "learn_p50_eval", "learn_p90_eval", "recall_total",
       "recall_duplicate_hits", "recall_adapt_hits", "recall_fresh_misses",
       "recall_avg_similarity", "roi_score"],
     tenantColumn := "tenant_id", restriction := .none },
   { name := "jobs",
     columns := ["id", "tenant_id", "project_id", "operation", "status", "payload", "result",
       "error", "attempts", "max_attempts", "max_execution_seconds", "submitted_at",
       "started_at", "completed_at"],
     tenantColumn := "tenant_id", restriction := .recent "submitted_at" },
   { name := "projects",
     columns := ["id", "tenant_id", "name", "retention_days", "created_at", "deleted_at"],
     tenantColumn := "tenant_id", restriction := .live "deleted_at" },
   { name := "tenants",
     columns := ["id", "name", "plan_tier", "retention_days", "created_at"],
     tenantColumn := "id", restriction := .none }]

/-- The columns of the tables as the models declare them. -/
abbrev Schema : Type := List (String × List String)

def models : Schema :=
  [("memory_data", ["key", "tenant_id", "project_id", "data", "updated_at", "classification",
      "source", "run_id", "author", "redacted", "expires_at"]),
   ("memory_embeddings", ["key", "tenant_id", "project_id", "embedding"]),
   ("tenants", ["id", "name", "plan_tier", "created_at", "retention_days", "deleted_at"]),
   ("projects", ["id", "tenant_id", "name", "max_patterns", "created_at", "retention_days",
      "default_classification", "redaction_enabled", "deleted_at"]),
   ("jobs", ["id", "tenant_id", "project_id", "key_id", "request_id", "operation", "params",
      "status", "result", "error", "attempts", "max_attempts", "created_at", "scheduled_at",
      "started_at", "completed_at", "expires_at", "max_execution_seconds"])]

def Restriction.columns : Restriction → List String
  | .none => []
  | .recent column | .live column => [column]

/-- The database has the table with the columns that the query names. -/
def Table.inSchema (schema : Schema) (t : Table) : Bool :=
  match schema.lookup t.name with
  | none => false
  | some columns =>
      (t.columns ++ t.tenantColumn :: t.restriction.columns).all fun c => columns.contains c

/-- The tables with the columns they have, the rows of each in the order in which the database
yields them, and the error of a query that fails, after so many rows. A query that names what
the database does not have fails at once. -/
structure Database where
  schema : Schema
  rows : String → List Record
  isRecent : Cell → Bool
  unknown : String → CodePoints
  fault : String → Option (ℕ × CodePoints)

def Table.keeps (db : Database) (tenantId : CodePoints) (t : Table) (r : Record) : Bool :=
  (r t.tenantColumn).str? = some tenantId &&
    match t.restriction with
    | .none => true
    | .recent column => db.isRecent (r column)
    | .live column => (r column).isNull

def Table.selected (db : Database) (tenantId : CodePoints) (t : Table) : List Record :=
  (db.rows t.name).filter (t.keeps db tenantId)

/-- The rows that a query yields and the error it ends with. -/
def Table.read (db : Database) (tenantId : CodePoints) (t : Table) :
    List Record × Option CodePoints :=
  if t.inSchema db.schema then
    match db.fault t.name with
    | none => (t.selected db tenantId, none)
    | some (n, message) => ((t.selected db tenantId).take n, some message)
  else ([], some (db.unknown t.name))

section Envelopes

def envelope (kind : String) (entries : List (String × Value)) : Value :=
  .dict ((("version", .int 1) :: ("kind", .str (codePoints kind)) :: entries).map fun x =>
    (codePoints x.1, x.2))

def header (tenantId exportedAt : CodePoints) : Value :=
  envelope "header" [("tenant_id", .str tenantId), ("exported_at", .str exportedAt),
    ("tables", .list (backupTables.map fun t => .str (codePoints t.name)))]

/-- `dict(row._mapping)` -/
def Table.data (t : Table) (r : Record) : Value :=
  .dict (t.columns.map fun c => (codePoints c, (r c).value))

def rowEnvelope (t : Table) (r : Record) : Value :=
  envelope "row" [("table", .str (codePoints t.name)), ("data", t.data r)]

def errorEnvelope (t : Table) (message : CodePoints) : Value :=
  envelope "error" [("table", .str (codePoints t.name)), ("message", .str message)]

def footer (rowCount : ℕ) (tableCounts : List (CodePoints × Value)) : Value :=
  envelope "footer" [("row_count", .int rowCount), ("table_counts", .dict tableCounts)]

variable (db : Database) (tenantId exportedAt : CodePoints)

def tableEnvelopes (t : Table) : List Value :=
  (t.read db tenantId).1.map (rowEnvelope t) ++
    ((t.read db tenantId).2.map (errorEnvelope t)).toList

/-- The loop over the tables, with its counts, and the footer. -/
def streamTables : List Table → ℕ → List (CodePoints × Value) → List Value
  | [], rowCount, tableCounts => [footer rowCount tableCounts]
  | t :: tables, rowCount, tableCounts =>
      let count := (t.read db tenantId).1.length
      tableEnvelopes db tenantId t ++
        streamTables tables (rowCount + count) (assign (codePoints t.name) (.int count) tableCounts)

def envelopes : List Value :=
  header tenantId exportedAt :: streamTables db tenantId backupTables 0 []

/-- `BackupExporter.stream` -/
def stream : List (List Char) :=
  (envelopes db tenantId exportedAt).map fun v => dump v ++ ['\n']

/-- The test by which the endpoint finds the footer. -/
def isFooterLine (line : List Char) : Bool :=
  "\x7b\"version\": 1, \"kind\": \"footer\"".toList.isPrefixOf line

/-- The decoded lines of what has arrived. -/
def received (L : Limits) (text : List Char) : List (Except Failure Value) :=
  (lines '\n' text).map (loads L)

end Envelopes

section Reading

def field (key : String) : Value → Option Value
  | .dict entries => entries.lookup (codePoints key)
  | _ => none

def text (key : String) (v : Value) : Option CodePoints := (field key v).bind Value.str?

/-- What the lines of a kind hold for a table. -/
def contents (kind content : String) (t : Table) (vs : List Value) : List Value :=
  vs.filterMap fun v =>
    if text "kind" v = some (codePoints kind) ∧ text "table" v = some (codePoints t.name) then
      field content v
    else none

def rows (t : Table) (vs : List Value) : List Value := contents "row" "data" t vs
def errors (t : Table) (vs : List Value) : List Value := contents "error" "message" t vs

def IsFooter (v : Value) : Prop := text "kind" v = some (codePoints "footer")

theorem codePoints_injective : Function.Injective codePoints := by
  intro s t h
  have hchars : s.toList = t.toList := by
    refine List.map_injective_iff.mpr ?_ h
    intro c d hcd
    exact Char.toNat_inj.mp hcd
  exact String.toList_inj.mp hchars

theorem codePoints_inj {s t : String} : codePoints s = codePoints t ↔ s = t :=
  codePoints_injective.eq_iff

theorem codePoints_beq (s t : String) : (codePoints s == codePoints t) = (s == t) := by
  rw [Bool.eq_iff_iff]
  simp [codePoints_inj]

theorem contents_append (kind content : String) (t : Table) (vs ws : List Value) :
    contents kind content t (vs ++ ws) =
      contents kind content t vs ++ contents kind content t ws := by
  simp [contents]

variable (db : Database) (tenantId exportedAt : CodePoints) (t : Table)


theorem text_kind (kind : String) (entries : List (String × Value)) :
    text "kind" (envelope kind entries) = some (codePoints kind) := by
  simp [text, field, envelope, List.lookup_cons, codePoints_beq, Value.str?]

theorem dump_envelope (kind : String) (entries : List (String × Value)) :
    ∃ tail, dump (envelope kind entries) =
      "\x7b\"version\": 1, \"kind\": ".toList ++ (dumpString (codePoints kind) ++ tail) := by
  have hversion : dumpMember (codePoints "version", .int 1) = "\"version\": 1".toList := by decide
  have hkind : dumpMember (codePoints "kind", .str (codePoints kind)) =
      "\"kind\": ".toList ++ dumpString (codePoints kind) := by
    have hkey : dumpString (codePoints "kind") = "\"kind\"".toList := by decide
    rw [dumpMember, dump, hkey]
    rfl
  obtain ⟨tail, htail⟩ := commas_cons (dumpMember (codePoints "kind", .str (codePoints kind)))
    ((entries.map fun x => (codePoints x.1, x.2)).map dumpMember)
  refine ⟨tail ++ ['}'], ?_⟩
  rw [envelope, dump, dumpMembers_eq]
  simp only [List.map_cons, commas]
  rw [htail, hkind, hversion]
  simp

theorem fields_rowEnvelope (r : Record) : text "kind" (rowEnvelope t r) = some (codePoints "row") ∧
    text "table" (rowEnvelope t r) = some (codePoints t.name) ∧
      field "data" (rowEnvelope t r) = some (t.data r) := by
  simp [text, field, rowEnvelope, envelope, List.lookup_cons, codePoints_beq, Value.str?]

theorem fields_errorEnvelope (message : CodePoints) :
    text "kind" (errorEnvelope t message) = some (codePoints "error") ∧
      text "table" (errorEnvelope t message) = some (codePoints t.name) ∧
        field "message" (errorEnvelope t message) = some (.str message) := by
  simp [text, field, errorEnvelope, envelope, List.lookup_cons, codePoints_beq, Value.str?]

theorem fields_footer (rowCount : ℕ) (tableCounts : List (CodePoints × Value)) :
    field "row_count" (footer rowCount tableCounts) = some (.int rowCount) ∧
      field "table_counts" (footer rowCount tableCounts) = some (.dict tableCounts) := by
  simp [field, footer, envelope, List.lookup_cons, codePoints_beq]

theorem rows_tableEnvelopes (t' : Table) : rows t (tableEnvelopes db tenantId t') =
    if t'.name = t.name then (t'.read db tenantId).1.map t'.data else [] := by
  rw [rows, tableEnvelopes, contents_append]
  have herror : contents "row" "data" t
      ((t'.read db tenantId).2.map (errorEnvelope t')).toList = [] := by
    cases (t'.read db tenantId).2 with
    | none => rfl
    | some message => simp [contents, fields_errorEnvelope, codePoints_inj]
  rw [herror, List.append_nil, contents, List.filterMap_map]
  by_cases hname : t'.name = t.name
  · simp [fields_rowEnvelope, hname]
  · simp [fields_rowEnvelope, hname, codePoints_inj]

theorem errors_tableEnvelopes (t' : Table) : errors t (tableEnvelopes db tenantId t') =
    if t'.name = t.name then ((t'.read db tenantId).2.map Value.str).toList else [] := by
  rw [errors, tableEnvelopes, contents_append]
  have hrows : contents "error" "message" t
      ((t'.read db tenantId).1.map (rowEnvelope t')) = [] := by
    simp [contents, fields_rowEnvelope, codePoints_inj]
  rw [hrows, List.nil_append]
  by_cases hname : t'.name = t.name
  · cases (t'.read db tenantId).2 with
    | none => simp [contents]
    | some message => simp [contents, fields_errorEnvelope, hname]
  · cases (t'.read db tenantId).2 with
    | none => simp [contents]
    | some message => simp [contents, fields_errorEnvelope, hname, codePoints_inj]

def tableCount (t : Table) : CodePoints × Value :=
  (codePoints t.name, .int (t.read db tenantId).1.length)

def totalCount : ℕ := (backupTables.map fun t => (t.read db tenantId).1.length).sum

def lastFooter : Value :=
  footer (totalCount db tenantId) (backupTables.map (tableCount db tenantId))

theorem streamTables_eq (tables : List Table) (rowCount : ℕ)
    (tableCounts : List (CodePoints × Value)) :
    streamTables db tenantId tables rowCount tableCounts =
      tables.flatMap (tableEnvelopes db tenantId) ++
        [footer (rowCount + (tables.map fun t => (t.read db tenantId).1.length).sum)
          ((tables.map (tableCount db tenantId)).foldl
            (fun entries x => assign x.1 x.2 entries) tableCounts)] := by
  induction tables generalizing rowCount tableCounts with
  | nil => simp [streamTables]
  | cons t tables ih => simp [streamTables, ih, tableCount, Nat.add_assoc]

theorem names_nodup : (backupTables.map Table.name).Nodup := by decide

theorem codePoints_names_nodup : (backupTables.map fun t => codePoints t.name).Nodup := by
  have h := List.Nodup.map codePoints_injective names_nodup
  rwa [List.map_map] at h

theorem tableCounts_nodup :
    ((backupTables.map (tableCount db tenantId)).map Prod.fst).Nodup := by
  rw [List.map_map]
  exact codePoints_names_nodup

theorem envelopes_eq : envelopes db tenantId exportedAt =
    header tenantId exportedAt :: (backupTables.flatMap (tableEnvelopes db tenantId) ++
      [lastFooter db tenantId]) := by
  have hcounts := dictOf_nodup (tableCounts_nodup db tenantId)
  injection hcounts with hcounts
  rw [envelopes, streamTables_eq, hcounts, Nat.zero_add, lastFooter, totalCount]

theorem flatMap_named {β : Type} {f : Table → List β} {tables : List Table}
    (hnodup : (tables.map Table.name).Nodup) (ht : t ∈ tables) :
    (tables.flatMap fun t' => if t'.name = t.name then f t' else []) = f t := by
  induction tables with
  | nil => cases ht
  | cons t' tables ih =>
      rw [List.map_cons, List.nodup_cons] at hnodup
      cases ht with
      | head =>
          have htail : (tables.flatMap fun t' => if t'.name = t.name then f t' else []) = [] := by
            rw [List.flatMap_eq_nil_iff]
            intro t' ht'
            rw [if_neg]
            intro hname
            exact hnodup.1 (hname ▸ List.mem_map_of_mem ht')
          rw [List.flatMap_cons, htail, if_pos rfl, List.append_nil]
      | tail _ ht =>
          have hne : t'.name ≠ t.name := by
            intro hname
            exact hnodup.1 (hname ▸ List.mem_map_of_mem ht)
          rw [List.flatMap_cons, if_neg hne, ih hnodup.2 ht]
          rfl

variable {t}

theorem contents_flatMap {kind content : String} {f : Table → List Value}
    (hf : ∀ t', contents kind content t (tableEnvelopes db tenantId t') =
      if t'.name = t.name then f t' else [])
    (hheader : kind ≠ "header") (hfooter : kind ≠ "footer") (ht : t ∈ backupTables) :
    contents kind content t (envelopes db tenantId exportedAt) = f t := by
  have hends : ∀ v, text "kind" v = some (codePoints "header") ∨
      text "kind" v = some (codePoints "footer") → contents kind content t [v] = [] := by
    intro v hv
    have hkind : text "kind" v ≠ some (codePoints kind) := by
      intro h
      rw [h] at hv
      simp [codePoints_inj, hheader, hfooter] at hv
    simp [contents, hkind]
  rw [envelopes_eq, ← List.singleton_append, contents_append, contents_append,
    hends _ (Or.inl rfl), hends _ (Or.inr rfl), List.append_nil, List.nil_append, contents,
    List.filterMap_flatMap]
  exact (List.flatMap_congr fun t' _ => hf t').trans (flatMap_named t names_nodup ht)

theorem rows_envelopes (ht : t ∈ backupTables) :
    rows t (envelopes db tenantId exportedAt) = (t.read db tenantId).1.map t.data :=
  contents_flatMap db tenantId exportedAt (rows_tableEnvelopes db tenantId t) (by decide)
    (by decide) ht

theorem errors_envelopes (ht : t ∈ backupTables) : errors t (envelopes db tenantId exportedAt) =
    ((t.read db tenantId).2.map Value.str).toList :=
  contents_flatMap db tenantId exportedAt (errors_tableEnvelopes db tenantId t) (by decide)
    (by decide) ht

theorem mem_before {v : Value} (hv : v ∈ header tenantId exportedAt ::
      backupTables.flatMap (tableEnvelopes db tenantId)) :
    v = header tenantId exportedAt ∨
      (∃ t ∈ backupTables, ∃ r ∈ (t.read db tenantId).1, v = rowEnvelope t r) ∨
      (∃ t ∈ backupTables, ∃ m ∈ (t.read db tenantId).2, v = errorEnvelope t m) := by
  rw [List.mem_cons, List.mem_flatMap] at hv
  obtain hv | ⟨t, ht, hv⟩ := hv
  · exact Or.inl hv
  · rw [tableEnvelopes, List.mem_append] at hv
    cases hv with
    | inl hv =>
        obtain ⟨r, hr, hv⟩ := List.mem_map.mp hv
        exact Or.inr (Or.inl ⟨t, ht, r, hr, hv.symm⟩)
    | inr hv =>
        obtain ⟨m, hm, hv⟩ := Option.map_eq_some_iff.mp (Option.mem_toList.mp hv)
        exact Or.inr (Or.inr ⟨t, ht, m, hm, hv.symm⟩)

theorem not_isFooter {v : Value} (hv : v ∈ header tenantId exportedAt ::
    backupTables.flatMap (tableEnvelopes db tenantId)) : ¬ IsFooter v := by
  intro hfooter
  obtain h | ⟨t, _, r, _, h⟩ | ⟨t, _, m, _, h⟩ := mem_before db tenantId exportedAt hv
  · rw [h, IsFooter, header, text_kind] at hfooter
    simp [codePoints_inj] at hfooter
  · rw [h, IsFooter, rowEnvelope, text_kind] at hfooter
    simp [codePoints_inj] at hfooter
  · rw [h, IsFooter, errorEnvelope, text_kind] at hfooter
    simp [codePoints_inj] at hfooter

theorem isFooter_lastFooter : IsFooter (lastFooter db tenantId) := text_kind "footer" _

theorem mem_envelopes {v : Value} : v ∈ envelopes db tenantId exportedAt ↔
    v ∈ header tenantId exportedAt :: backupTables.flatMap (tableEnvelopes db tenantId) ∨
      v = lastFooter db tenantId := by
  rw [envelopes_eq, ← List.cons_append, List.mem_append, List.mem_singleton]

theorem isFooterLine_envelope {kind : String} (h : kind ∈ ["header", "row", "error", "footer"])
    (entries : List (String × Value)) (rest : List Char) :
    isFooterLine (dump (envelope kind entries) ++ rest) ↔ kind = "footer" := by
  obtain ⟨tail, htail⟩ := dump_envelope kind entries
  have htest : "\x7b\"version\": 1, \"kind\": \"footer\"".toList =
    "\x7b\"version\": 1, \"kind\": ".toList ++ "\"footer\"".toList := by rfl
  rw [isFooterLine, List.isPrefixOf_iff_prefix, htail, htest, List.append_assoc,
    List.prefix_append_right_inj, List.append_assoc]
  have hdumps : dumpString (codePoints "header") = "\"header\"".toList ∧
    dumpString (codePoints "row") = "\"row\"".toList ∧
    dumpString (codePoints "error") = "\"error\"".toList ∧
    dumpString (codePoints "footer") = "\"footer\"".toList := by decide
  simp only [List.mem_cons, List.not_mem_nil, or_false] at h
  obtain h | h | h | h := h
  · simp [h, hdumps]
  · simp [h, hdumps]
  · simp [h, hdumps]
  · simp [h, hdumps]

theorem isFooterLine_iff {v : Value} (hv : v ∈ envelopes db tenantId exportedAt)
    (rest : List Char) : isFooterLine (dump v ++ rest) ↔ IsFooter v := by
  have hline : ∀ kind entries, kind ∈ ["header", "row", "error", "footer"] →
      (isFooterLine (dump (envelope kind entries) ++ rest) ↔ IsFooter (envelope kind entries)) := by
    intro kind entries hkind
    rw [isFooterLine_envelope hkind, IsFooter, text_kind, Option.some_inj, codePoints_inj]
  cases (mem_envelopes db tenantId exportedAt).mp hv with
  | inl hv =>
      obtain h | ⟨t, _, r, _, h⟩ | ⟨t, _, m, _, h⟩ := mem_before db tenantId exportedAt hv
      · exact h ▸ hline "header" _ (by simp)
      · exact h ▸ hline "row" _ (by simp)
      · exact h ▸ hline "error" _ (by simp)
  | inr hv => exact hv ▸ hline "footer" _ (by simp)

theorem footer_mem_take {n : ℕ} (hn : n ≤ (envelopes db tenantId exportedAt).length) :
    (∃ v ∈ (envelopes db tenantId exportedAt).take n, IsFooter v) ↔
      n = (envelopes db tenantId exportedAt).length := by
  refine ⟨?_, ?_⟩
  · intro h
    obtain ⟨v, hv, hfooter⟩ := h
    by_contra hne
    rw [envelopes_eq, ← List.cons_append] at hv hn hne
    rw [List.length_append, List.length_singleton] at hn hne
    rw [List.take_append_of_le_length (by omega)] at hv
    exact not_isFooter db tenantId exportedAt (List.mem_of_mem_take hv) hfooter
  · intro h
    rw [h, List.take_length]
    have hlast := (mem_envelopes db tenantId exportedAt).mpr (Or.inr rfl)
    exact ⟨_, hlast, isFooter_lastFooter db tenantId⟩

end Reading

section Receiving
variable {L : Limits} {db : Database} {tenantId exportedAt : CodePoints}

/-- A decoder reads what the tables hold and what their errors say, and the counts. -/
structure Receivable (L : Limits) (db : Database) (tenantId exportedAt : CodePoints) : Prop where
  nesting : 2 ≤ L.nesting
  tenant : Unpaired tenantId
  time : Unpaired exportedAt
  cells : ∀ t ∈ backupTables, ∀ r ∈ db.rows t.name, ∀ c ∈ t.columns,
    Readable L (L.nesting - 2) (r c).value
  unknown : ∀ t ∈ backupTables, Unpaired (db.unknown t.name)
  fault : ∀ t ∈ backupTables, ∀ x ∈ db.fault t.name, Unpaired x.2
  digits : L.digits = 0 ∨ totalCount db tenantId < 10 ^ L.digits

theorem read_subset (t : Table) : ∀ r ∈ (t.read db tenantId).1,
    r ∈ db.rows t.name ∧ t.keeps db tenantId r := by
  intro r hr
  have hselected : r ∈ t.selected db tenantId := by
    rw [Table.read] at hr
    split at hr
    · split at hr
      · exact hr
      · exact List.mem_of_mem_take hr
    · cases hr
  exact List.mem_filter.mp hselected

def isAscii (s : String) : Bool := s.toList.all fun c => c.toNat < 128

theorem Receivable.message (h : Receivable L db tenantId exportedAt) {t : Table}
    (ht : t ∈ backupTables) : ∀ message ∈ (t.read db tenantId).2, Unpaired message := by
  intro message hmessage
  rw [Table.read] at hmessage
  split at hmessage
  · split at hmessage
    · cases hmessage
    case h_2 n fault hfault =>
        cases hmessage
        exact h.fault t ht _ hfault
  · cases hmessage
    exact h.unknown t ht

theorem unpaired_codePoints {s : String} (h : isAscii s) : Unpaired (codePoints s) := by
  apply unpaired_of_lt
  intro point hpoint
  obtain ⟨c, hc, hpoint⟩ := List.mem_map.mp hpoint
  have hlt : c.toNat < 128 := of_decide_eq_true (List.all_eq_true.mp h c hc)
  omega

theorem readable_envelope {depth : ℕ} {kind : String} {entries : List (String × Value)}
    (keys : List String) (hkeys : entries.map Prod.fst = keys) (hdigits : DigitsFit L 1)
    (hascii : ∀ s ∈ kind :: keys, isAscii s) (hnodup : ("version" :: "kind" :: keys).Nodup)
    (hvalues : ∀ x ∈ entries, Readable L depth x.2) :
    Readable L (depth + 1) (envelope kind entries) := by
  rw [← hkeys] at hascii hnodup
  apply Readable.dict
  · have h := List.Nodup.map codePoints_injective hnodup
    simpa [List.map_map, Function.comp_def] using h
  · simp only [List.map_cons, List.mem_cons, List.mem_map, forall_eq_or_imp]
    refine ⟨unpaired_codePoints (by decide), unpaired_codePoints (by decide), ?_⟩
    intro x hx
    obtain ⟨y, hy, hx⟩ := hx
    have hkey := hascii y.1 (List.mem_cons_of_mem _ (List.mem_map_of_mem hy))
    exact hx ▸ unpaired_codePoints hkey
  · simp only [List.map_cons, List.mem_cons, List.mem_map, forall_eq_or_imp]
    refine ⟨Readable.int hdigits, Readable.str ?_, ?_⟩
    · exact unpaired_codePoints (hascii kind List.mem_cons_self)
    · intro x hx
      obtain ⟨y, hy, hx⟩ := hx
      exact hx ▸ hvalues y hy

theorem Receivable.fits (h : Receivable L db tenantId exportedAt) {n : ℕ}
    (hn : n ≤ 1 ∨ n ≤ totalCount db tenantId) : DigitsFit L n := by
  by_cases hzero : L.digits = 0
  · exact Or.inl hzero
  · have hpos : 0 < L.digits := Nat.pos_of_ne_zero hzero
    have hten : 1 < 10 ^ L.digits := Nat.one_lt_pow hzero (by decide)
    have htotal := h.digits.resolve_left hzero
    refine Or.inr ((Nat.length_toDigits_le_iff (by decide) hpos).mpr ?_)
    simp only [Int.natAbs_natCast]
    omega

theorem count_le_total {t : Table} (ht : t ∈ backupTables) :
    (t.read db tenantId).1.length ≤ totalCount db tenantId :=
  List.le_sum_of_mem (List.mem_map.mpr ⟨t, ht, rfl⟩)

theorem ascii_tables : ∀ t ∈ backupTables, ∀ s ∈ t.name :: t.columns, isAscii s := by decide

theorem columns_nodup : ∀ t ∈ backupTables, t.columns.Nodup ∧ t.tenantColumn ∈ t.columns := by
  decide

theorem Receivable.readable (h : Receivable L db tenantId exportedAt) {v : Value}
    (hv : v ∈ envelopes db tenantId exportedAt) : Readable L L.nesting v := by
  obtain ⟨depth, hdepth⟩ := Nat.exists_eq_add_of_le' h.nesting
  have hone : DigitsFit L 1 := h.fits (n := 1) (Or.inl le_rfl)
  have hname : ∀ t ∈ backupTables, Unpaired (codePoints t.name) := by
    intro t ht
    exact unpaired_codePoints (ascii_tables t ht t.name List.mem_cons_self)
  rw [hdepth]
  obtain ⟨hv | ⟨t, ht, r, hr, hv⟩ | ⟨t, ht, m, hm, hv⟩⟩ | hv :=
    ((mem_envelopes db tenantId exportedAt).mp hv).imp_left (mem_before db tenantId exportedAt)
  · rw [hv, header]
    apply readable_envelope ["tenant_id", "exported_at", "tables"] rfl hone (by decide) (by decide)
    simp only [List.mem_cons, List.not_mem_nil, or_false, forall_eq_or_imp, forall_eq]
    refine ⟨Readable.str h.tenant, Readable.str h.time, Readable.list ?_⟩
    intro v hv
    obtain ⟨t, ht, hv⟩ := List.mem_map.mp hv
    exact hv ▸ Readable.str (hname t ht)
  · rw [hv, rowEnvelope]
    apply readable_envelope ["table", "data"] rfl hone (by decide) (by decide)
    simp only [List.mem_cons, List.not_mem_nil, or_false, forall_eq_or_imp, forall_eq]
    refine ⟨Readable.str (hname t ht), Readable.dict ?_ ?_ ?_⟩
    · rw [List.map_map]
      exact List.Nodup.map codePoints_injective (columns_nodup t ht).1
    · intro x hx
      obtain ⟨c, hc, hx⟩ := List.mem_map.mp hx
      exact hx ▸ unpaired_codePoints (ascii_tables t ht c (List.mem_cons_of_mem _ hc))
    · intro x hx
      obtain ⟨c, hc, hx⟩ := List.mem_map.mp hx
      have hcell := h.cells t ht r (read_subset t r hr).1 c hc
      rw [hdepth, Nat.add_sub_cancel] at hcell
      exact hx ▸ hcell
  · rw [hv, errorEnvelope]
    apply readable_envelope ["table", "message"] rfl hone (by decide) (by decide)
    simp only [List.mem_cons, List.not_mem_nil, or_false, forall_eq_or_imp, forall_eq]
    exact ⟨Readable.str (hname t ht), Readable.str (h.message ht m hm)⟩
  · rw [hv, lastFooter, footer]
    apply readable_envelope ["row_count", "table_counts"] rfl hone (by decide) (by decide)
    simp only [List.mem_cons, List.not_mem_nil, or_false, forall_eq_or_imp, forall_eq]
    refine ⟨Readable.int (h.fits (Or.inr le_rfl)), Readable.dict ?_ ?_ ?_⟩
    · exact tableCounts_nodup db tenantId
    · intro x hx
      obtain ⟨t, ht, hx⟩ := List.mem_map.mp hx
      exact hx ▸ hname t ht
    · intro x hx
      obtain ⟨t, ht, hx⟩ := List.mem_map.mp hx
      exact hx ▸ Readable.int (h.fits (Or.inr (count_le_total ht)))

theorem no_newline {v : Value} {depth : ℕ} (h : Readable L depth v) : '\n' ∉ dump v := by
  intro hmem
  exact absurd (printable_dump h '\n' hmem).1 (by decide)

theorem stream_flatten : (stream db tenantId exportedAt).flatten =
    unlines '\n' ((envelopes db tenantId exportedAt).map dump) := by
  rw [stream, unlines, List.flatMap_map, List.flatMap_def]

/-- What has arrived is read as the first of the envelopes, and the footer is read exactly where
all of them arrived. -/
theorem received_take (h : Receivable L db tenantId exportedAt) {part : List Char}
    (hpart : part <+: (stream db tenantId exportedAt).flatten) :
    ∃ n ≤ (envelopes db tenantId exportedAt).length,
      received L part = ((envelopes db tenantId exportedAt).take n).map .ok ∧
        (n = (envelopes db tenantId exportedAt).length ↔
          part = (stream db tenantId exportedAt).flatten) := by
  rw [stream_flatten] at hpart ⊢
  have hlines : ∀ line ∈ (envelopes db tenantId exportedAt).map dump, '\n' ∉ line := by
    intro line hline
    obtain ⟨v, hv, hline⟩ := List.mem_map.mp hline
    exact hline ▸ no_newline (h.readable hv)
  obtain ⟨n, hn, hread, hall⟩ := lines_of_prefix hlines hpart
  rw [List.length_map] at hn hall
  refine ⟨n, hn, ?_, hall⟩
  rw [received, hread, ← List.map_take, List.map_map]
  refine List.map_congr_left ?_
  intro v hv
  have hdump := loads_dump (h.readable (List.mem_of_mem_take hv)) [] rfl
  rwa [List.append_nil] at hdump

theorem tenant_data {t : Table} (ht : t ∈ backupTables) {r : Record}
    (hr : r ∈ (t.read db tenantId).1) : text t.tenantColumn (t.data r) = some tenantId := by
  have hkeeps := (read_subset t r hr).2
  rw [Table.keeps, Bool.and_eq_true, decide_eq_true_eq] at hkeeps
  have hcolumns := columns_nodup t ht
  have hlookup : field t.tenantColumn (t.data r) = some (r t.tenantColumn).value :=
    Library.lookup_of_mem (List.Nodup.map codePoints_injective hcolumns.1) hcolumns.2
  rw [text, hlookup]
  cases hcell : r t.tenantColumn with
  | json v => simpa [hcell, Cell.str?, Cell.value] using hkeeps.1
  | other s => simp [hcell, Cell.str?] at hkeeps

/-- Where a decoder reads what the tables hold, what arrives of a backup, whichever queries fail,
is decoded line by line as a first part of it. The footer is among the lines exactly if nothing is
missing, and then its counts are those of the lines of each table, which are the rows that its
query yielded and the error it ended with. Every row is of the tenant, and where the database has
the tables of the models, it is of one of three. -/
theorem backup_received (h : Receivable L db tenantId exportedAt) {part : List Char}
    (hpart : part <+: (stream db tenantId exportedAt).flatten) :
    ∃ got, received L part = got.map .ok ∧ got <+: envelopes db tenantId exportedAt ∧
      ((∃ v ∈ got, IsFooter v) ↔ part = (stream db tenantId exportedAt).flatten) ∧
      (∀ v ∈ got, IsFooter v →
        field "row_count" v = some (.int (backupTables.map fun t => (rows t got).length).sum) ∧
        ∃ counts, field "table_counts" v = some (.dict counts) ∧
          ∀ t ∈ backupTables, counts.lookup (codePoints t.name) = some (.int (rows t got).length) ∧
            rows t got = (t.read db tenantId).1.map t.data ∧
            errors t got = ((t.read db tenantId).2.map Value.str).toList) ∧
      (∀ t ∈ backupTables, ∀ data ∈ rows t got, text t.tenantColumn data = some tenantId ∧
        (db.schema = models → t.name ∈ ["memory_embeddings", "projects", "tenants"])) := by
  obtain ⟨n, hn, hreceived, hall⟩ := received_take h hpart
  have hfooters := footer_mem_take db tenantId exportedAt hn
  refine ⟨_, hreceived, List.take_prefix n _, hfooters.trans hall, ?_, ?_⟩
  · intro v hv hfooter
    have hwhole := hfooters.mp ⟨v, hv, hfooter⟩
    rw [hwhole, List.take_length] at hv ⊢
    have hlast : v = lastFooter db tenantId :=
      ((mem_envelopes db tenantId exportedAt).mp hv).resolve_left fun hbefore =>
        not_isFooter db tenantId exportedAt hbefore hfooter
    have hfields := fields_footer (totalCount db tenantId)
      (backupTables.map (tableCount db tenantId))
    have hrows := fun t ht => rows_envelopes db tenantId exportedAt (t := t) ht
    rw [hlast]
    refine ⟨?_, _, hfields.2, ?_⟩
    · have hcounts :
          backupTables.map (fun t => (rows t (envelopes db tenantId exportedAt)).length) =
            backupTables.map fun t => (t.read db tenantId).1.length := by
        refine List.map_congr_left ?_
        intro t ht
        rw [hrows t ht, List.length_map]
      rw [hcounts]
      exact hfields.1
    · intro t ht
      refine ⟨?_, hrows t ht, errors_envelopes db tenantId exportedAt ht⟩
      rw [hrows t ht, List.length_map]
      exact Library.lookup_of_mem codePoints_names_nodup ht
  · intro t ht data hdata
    have hsub : rows t ((envelopes db tenantId exportedAt).take n) <+:
        rows t (envelopes db tenantId exportedAt) := (List.take_prefix n _).filterMap _
    have hmem := hsub.subset hdata
    rw [rows_envelopes db tenantId exportedAt ht] at hmem
    obtain ⟨r, hr, hr'⟩ := List.mem_map.mp hmem
    refine ⟨hr' ▸ tenant_data ht hr, ?_⟩
    intro hschema
    have hmodels : ∀ t ∈ backupTables, t.inSchema models →
        t.name ∈ ["memory_embeddings", "projects", "tenants"] := by decide
    apply hmodels t ht
    by_contra hnot
    rw [Table.read, hschema, if_neg hnot] at hr
    cases hr

/-- A tenant with one embedding, where the table of the projects cannot be read. -/
def embedded : Database where
  schema := models
  rows name := if name = "memory_embeddings" then [fun _ => .json (.str (codePoints "t1"))] else []
  isRecent _ := true
  unknown _ := codePoints "no column"
  fault name := if name = "projects" then some (0, codePoints "lost") else none

theorem embedded_receivable : Receivable ⟨2, 0⟩ embedded (codePoints "t1") (codePoints "now") where
  nesting := le_rfl
  tenant := unpaired_codePoints (by decide)
  time := unpaired_codePoints (by decide)
  cells t _ r hr c _ := by
    have hcell : r c = .json (.str (codePoints "t1")) := by
      simp only [embedded] at hr
      split at hr
      · rw [List.mem_singleton.mp hr]
      · cases hr
    rw [hcell]
    exact Readable.str (unpaired_codePoints (by decide))
  unknown t _ := by
    have hmessage : Unpaired (codePoints "no column") := unpaired_codePoints (by decide)
    exact hmessage
  fault t _ x hx := by
    simp only [embedded] at hx
    split at hx
    · cases hx
      exact unpaired_codePoints (by decide)
    · cases hx
  digits := Or.inl rfl

theorem backup_received_embedded :
    ∃ got : List Value,
      received ⟨2, 0⟩ (stream embedded (codePoints "t1") (codePoints "now")).flatten =
        got.map .ok ∧ ∃ v ∈ got, IsFooter v := by
  obtain ⟨got, hreceived, _, hfooter, _⟩ := backup_received embedded_receivable List.prefix_rfl
  exact ⟨got, hreceived, hfooter.mpr rfl⟩

end Receiving

end Engramia.Governance.Backup
