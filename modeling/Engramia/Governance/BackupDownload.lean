import Engramia.Governance.Backup
import Engramia.Library.Run
import Engramia.Library.Tally

/-!
Downloads of backups, which run side by side. One looks up the last success of its tenant, is
admitted or refused, hands the lines over, and is written to the log at the end, with the status
that the stream ended with. What the lookup sees and what the log gets are therefore apart by the
whole stream. The database stamps a row when the transaction that writes it begins.
-/
namespace Engramia.Governance.BackupDownload
open Library Library.JsonText Backup

inductive Status where
  | success
  | failed
  | inProgress
deriving DecidableEq

/-- A row of `backup_download_log`, stamped in microseconds. -/
structure LogRow where
  tenantId : CodePoints
  status : Status
  requestedAt : ℕ
  bytesStreamed : ℕ
  tablesExported : ℕ

/-- A download knows what its lookup found and, for the sake of what is said of it, how many rows
the log had then. A lookup that fails finds nothing. -/
inductive Phase where
  | paymentRequired
  | opened
  | looked (seen last : Option ℕ)
  | refused (now last retryAfter : ℕ)
  | streaming (seen : Option ℕ) (sent : ℕ)
  | closing (seen : Option ℕ) (sent : ℕ) (status : Status)
  | stamped (seen : Option ℕ) (sent : ℕ) (status : Status) (requestedAt : ℕ)
  | ended (seen row : Option ℕ)

/-- A download of what the database is found to hold, with the time that its header has. -/
structure Download where
  tenantId : CodePoints
  db : Backup.Database
  exportedAt : CodePoints
  phase : Phase

def Download.lines (d : Download) : List (List Char) := stream d.db d.tenantId d.exportedAt

structure World where
  time : ℕ
  log : List LogRow
  downloads : List Download

/-- The clocks of the database and of the server, which is ahead by so much at most. -/
structure Clocks where
  database : ℕ → ℕ
  server : ℕ → ℕ
  skew : ℕ
  monotone : Monotone database
  close : ∀ t, server t ≤ database t + skew

inductive Event where
  | tick (ticks : ℕ)
  | request (tenantId : CodePoints) (plan : Option String) (db : Backup.Database)
      (exportedAt : CodePoints)
  | look (download : ℕ) (works : Bool)
  | letIn (download : ℕ)
  | resume (download : ℕ)
  /-- The client goes away or the stream raises. -/
  | abort (download : ℕ) (raised : Bool)
  | begin (download : ℕ)
  | commit (download : ℕ) (works : Bool)

section Definitions

/-- `rate_window_hours` -/
def window : ℕ := 24 * 3600 * 1000000

def LogRow.IsSuccess (tenantId : CodePoints) (r : LogRow) : Prop :=
  r.tenantId = tenantId ∧ r.status = .success

instance (tenantId : CodePoints) : DecidablePred (LogRow.IsSuccess tenantId) := fun r => by
  unfold LogRow.IsSuccess
  infer_instance

/-- `ORDER BY requested_at DESC LIMIT 1` -/
def lastSuccess (tenantId : CodePoints) (log : List LogRow) : Option ℕ :=
  ((log.filter fun r => r.IsSuccess tenantId).map LogRow.requestedAt).max?

/-- The tiers that may not download, where the billing service is there. -/
def tierRefused (plan : Option String) : Bool :=
  plan.any fun tier => ["developer", "sandbox", "pro"].contains tier

/-- The tables that the endpoint counts in the lines that it handed over. -/
def countTables (L : Limits) (lines : List (List Char)) : ℕ :=
  match lines.find? isFooterLine with
  | none => 0
  | some line =>
      match loads L line with
      | .error _ => 0
      | .ok v =>
          match field "table_counts" v with
          | some (.dict counts) => counts.length
          | _ => 0

def LogRow.ofStream (L : Limits) (d : Download) (sent : ℕ) (status : Status) (requestedAt : ℕ) :
    LogRow where
  tenantId := d.tenantId
  status := status
  requestedAt := requestedAt
  bytesStreamed := (d.lines.take sent).flatten.length
  tablesExported := countTables L (d.lines.take sent)

def lookPhase (log : List LogRow) (tenantId : CodePoints) (works : Bool) : Phase → Phase
  | .opened =>
      if works then .looked (some log.length) (lastSuccess tenantId log) else .looked none none
  | phase => phase

def admitPhase (now : ℕ) : Phase → Phase
  | .looked seen none => .streaming seen 0
  | .looked seen (some last) =>
      if now < last + window then .refused now last ((last + window - now) / 1000000)
      else .streaming seen 0
  | phase => phase

/-- The stream goes on behind the line that it yielded last. -/
def resumePhase (lines : List (List Char)) : Phase → Phase
  | .streaming seen sent =>
      if sent < lines.length then .streaming seen (sent + 1) else .closing seen sent .success
  | phase => phase

def abortPhase (raised : Bool) : Phase → Phase
  | .streaming seen sent => .closing seen sent (if raised then .failed else .inProgress)
  | phase => phase

def beginPhase (now : ℕ) : Phase → Phase
  | .closing seen sent status => .stamped seen sent status now
  | phase => phase

variable (L : Limits) (c : Clocks)

namespace World
variable (w : World)

def setPhase (i : ℕ) (d : Download) (phase : Phase) : World :=
  { w with downloads := w.downloads.set i { d with phase := phase } }

/-- A download that moves on by itself. -/
def move (i : ℕ) (f : Download → Phase → Phase) : World :=
  match w.downloads[i]? with
  | none => w
  | some d => w.setPhase i d (f d d.phase)

def commit (i : ℕ) (works : Bool) : World :=
  match w.downloads[i]? with
  | none => w
  | some d =>
      match d.phase with
      | .stamped seen sent status requestedAt =>
          if works then
            { w with log := w.log ++ [LogRow.ofStream L d sent status requestedAt] }.setPhase i d
              (.ended seen (some w.log.length))
          else w.setPhase i d (.ended seen none)
      | _ => w

def step (w : World) : Event → World
  | .tick ticks => { w with time := w.time + ticks }
  | .request tenantId plan db exportedAt =>
      { w with downloads := w.downloads ++
          [⟨tenantId, db, exportedAt, if tierRefused plan then .paymentRequired else .opened⟩] }
  | .look i works => w.move i fun d => lookPhase w.log d.tenantId works
  | .letIn i => w.move i fun _ => admitPhase (c.server w.time)
  | .resume i => w.move i fun d => resumePhase d.lines
  | .abort i raised => w.move i fun _ => abortPhase raised
  | .begin i => w.move i fun _ => beginPhase (c.database w.time)
  | .commit i works => w.commit L i works

end World

/-- The successes that a lookup saw are a day before the bound. -/
def Spaced (log : List LogRow) (tenantId : CodePoints) (seen : Option ℕ) (bound : ℕ) : Prop :=
  ∀ k ∈ seen, ∀ r ∈ log.take k, r.IsSuccess tenantId → r.requestedAt + window ≤ bound

/-- Only a stream that has been taken to its end is a success. -/
def Sent (d : Download) (sent : ℕ) (status : Status) : Prop :=
  sent ≤ d.lines.length ∧ (status = .success → sent = d.lines.length)

/-- What a download has is borne out by the log. -/
def PhaseRight (w : World) (d : Download) : Phase → Prop
  | .paymentRequired | .opened => True
  | .looked seen last =>
      (∀ k ∈ seen, k ≤ w.log.length ∧ last = lastSuccess d.tenantId (w.log.take k)) ∧
        (seen = none → last = none)
  | .refused now last retryAfter =>
      (∃ r ∈ w.log, r.IsSuccess d.tenantId ∧ r.requestedAt = last) ∧ now < last + window ∧
        1000000 * retryAfter ≤ last + window - now ∧
          last + window - now < 1000000 * (retryAfter + 1)
  | .streaming seen sent =>
      (∀ k ∈ seen, k ≤ w.log.length) ∧ sent ≤ d.lines.length ∧
        Spaced w.log d.tenantId seen (c.database w.time + c.skew)
  | .closing seen sent status =>
      (∀ k ∈ seen, k ≤ w.log.length) ∧ Sent d sent status ∧
        Spaced w.log d.tenantId seen (c.database w.time + c.skew)
  | .stamped seen sent status requestedAt =>
      (∀ k ∈ seen, k ≤ w.log.length) ∧ Sent d sent status ∧
        Spaced w.log d.tenantId seen (requestedAt + c.skew)
  | .ended seen row =>
      (∀ k ∈ seen, k ≤ w.log.length) ∧ ∀ n ∈ row, ∃ sent status requestedAt,
        w.log[n]? = some (LogRow.ofStream L d sent status requestedAt) ∧ Sent d sent status ∧
          Spaced w.log d.tenantId seen (requestedAt + c.skew)

structure Sound (w : World) : Prop where
  downloads : ∀ d ∈ w.downloads, PhaseRight L c w d d.phase
  rows : ∀ n r, w.log[n]? = some r → ∃ d ∈ w.downloads, ∃ seen, d.phase = .ended seen (some n)

end Definitions

section Lookups
variable {tenantId : CodePoints} {log : List LogRow} {last : ℕ}

theorem lastSuccess_eq_none (h : lastSuccess tenantId log = none) :
    ∀ r ∈ log, ¬ r.IsSuccess tenantId := by
  rw [lastSuccess, List.max?_eq_none_iff, List.map_eq_nil_iff, List.filter_eq_nil_iff] at h
  intro r hr
  simpa using h r hr

theorem lastSuccess_eq_some (h : lastSuccess tenantId log = some last) :
    (∃ r ∈ log, r.IsSuccess tenantId ∧ r.requestedAt = last) ∧
      ∀ r ∈ log, r.IsSuccess tenantId → r.requestedAt ≤ last := by
  rw [lastSuccess, List.max?_eq_some_iff] at h
  refine ⟨?_, ?_⟩
  · obtain ⟨r, hr, hlast⟩ := List.mem_map.mp h.1
    rw [List.mem_filter, decide_eq_true_eq] at hr
    exact ⟨r, hr.1, hr.2, hlast⟩
  · intro r hr hsuccess
    exact h.2 _ (List.mem_map_of_mem (List.mem_filter.mpr ⟨hr, decide_eq_true hsuccess⟩))

theorem take_eq_of_isPrefix {log' : List LogRow} (h : log <+: log') {k : ℕ} (hk : k ≤ log.length) :
    k ≤ log'.length ∧ log'.take k = log.take k := by
  obtain ⟨rows, hrows⟩ := h
  rw [← hrows]
  refine ⟨?_, List.take_append_of_le_length hk⟩
  rw [List.length_append]
  omega

end Lookups

section Steps
variable {L : Limits} {c : Clocks} {w w' : World} {d : Download} {phase : Phase}
  {seen : Option ℕ} {bound : ℕ}

theorem Spaced.later {log log' : List LogRow} {tenantId : CodePoints} {bound' : ℕ}
    (h : Spaced log tenantId seen bound) (hseen : ∀ k ∈ seen, k ≤ log.length)
    (hlog : log <+: log') (hbound : bound ≤ bound') : Spaced log' tenantId seen bound' := by
  intro k hk r hr hsuccess
  rw [(take_eq_of_isPrefix hlog (hseen k hk)).2] at hr
  exact le_trans (h k hk r hr hsuccess) hbound

theorem PhaseRight.later (h : PhaseRight L c w d phase) (htime : w.time ≤ w'.time)
    (hlog : w.log <+: w'.log) : PhaseRight L c w' d phase := by
  have hdatabase := Nat.add_le_add_right (c.monotone htime) c.skew
  cases phase with
  | paymentRequired => trivial
  | opened => trivial
  | looked seen last =>
      refine ⟨?_, h.2⟩
      intro k hk
      have htake := take_eq_of_isPrefix hlog (h.1 k hk).1
      exact ⟨htake.1, htake.2 ▸ (h.1 k hk).2⟩
  | refused now last retryAfter =>
      obtain ⟨⟨r, hr, hrow⟩, hrest⟩ := h
      exact ⟨⟨r, hlog.subset hr, hrow⟩, hrest⟩
  | streaming seen sent =>
      have hseen := fun k hk => (take_eq_of_isPrefix hlog (h.1 k hk)).1
      exact ⟨hseen, h.2.1, h.2.2.later h.1 hlog hdatabase⟩
  | closing seen sent status =>
      have hseen := fun k hk => (take_eq_of_isPrefix hlog (h.1 k hk)).1
      exact ⟨hseen, h.2.1, h.2.2.later h.1 hlog hdatabase⟩
  | stamped seen sent status requestedAt =>
      have hseen := fun k hk => (take_eq_of_isPrefix hlog (h.1 k hk)).1
      exact ⟨hseen, h.2.1, h.2.2.later h.1 hlog le_rfl⟩
  | ended seen row =>
      refine ⟨fun k hk => (take_eq_of_isPrefix hlog (h.1 k hk)).1, ?_⟩
      intro n hn
      obtain ⟨sent, status, requestedAt, hrow, hsent, hspaced⟩ := h.2 n hn
      obtain ⟨rows, hrows⟩ := hlog
      refine ⟨sent, status, requestedAt, ?_, hsent, hspaced.later h.1 ⟨rows, hrows⟩ le_rfl⟩
      rw [← hrows]
      exact getElem?_append_of_some hrow rows

theorem right_look (h : PhaseRight L c w d phase) (works : Bool) :
    PhaseRight L c w d (lookPhase w.log d.tenantId works phase) := by
  cases phase with
  | opened =>
      cases works with
      | true =>
          refine ⟨?_, fun hnone => by cases hnone⟩
          intro k hk
          cases hk
          exact ⟨le_rfl, by rw [List.take_length]⟩
      | false =>
          refine ⟨?_, fun _ => rfl⟩
          intro k hk
          cases hk
  | _ => exact h

theorem right_admit (h : PhaseRight L c w d phase) :
    PhaseRight L c w d (admitPhase (c.server w.time) phase) := by
  cases phase with
  | looked seen last =>
      have hseen : ∀ k ∈ seen, k ≤ w.log.length := fun k hk => (h.1 k hk).1
      cases last with
      | none =>
          refine ⟨hseen, Nat.zero_le _, ?_⟩
          intro k hk r hr hsuccess
          exact absurd hsuccess (lastSuccess_eq_none (h.1 k hk).2.symm r hr)
      | some last =>
          cases hcase : seen with
          | none => exact absurd (h.2 hcase) (by simp)
          | some k =>
              have hk : k ∈ seen := hcase
              have hlast := lastSuccess_eq_some (h.1 k hk).2.symm
              rw [admitPhase]
              split
              case isTrue hnow =>
                  obtain ⟨⟨r, hr, hrow⟩, _⟩ := hlast
                  refine ⟨⟨r, List.mem_of_mem_take hr, hrow⟩, hnow, ?_, ?_⟩
                  · exact Nat.mul_div_le _ _
                  · exact Nat.lt_mul_div_succ _ (by decide)
              case isFalse hnow =>
                  refine ⟨hcase ▸ hseen, Nat.zero_le _, ?_⟩
                  intro k' hk' r hr hsuccess
                  cases hk'
                  have hstamp := hlast.2 r hr hsuccess
                  have hclose := c.close w.time
                  omega
  | _ => exact h

theorem right_resume (h : PhaseRight L c w d phase) :
    PhaseRight L c w d (resumePhase d.lines phase) := by
  cases phase with
  | streaming seen sent =>
      rw [resumePhase]
      split
      case isTrue hsent => exact ⟨h.1, hsent, h.2.2⟩
      case isFalse hsent =>
          have hall : sent = d.lines.length := le_antisymm h.2.1 (Nat.le_of_not_lt hsent)
          exact ⟨h.1, ⟨h.2.1, fun _ => hall⟩, h.2.2⟩
  | _ => exact h

theorem right_abort (h : PhaseRight L c w d phase) (raised : Bool) :
    PhaseRight L c w d (abortPhase raised phase) := by
  cases phase with
  | streaming seen sent =>
      refine ⟨h.1, ⟨h.2.1, ?_⟩, h.2.2⟩
      cases raised with
      | true => simp
      | false => simp
  | _ => exact h

theorem right_begin (h : PhaseRight L c w d phase) :
    PhaseRight L c w d (beginPhase (c.database w.time) phase) := by
  cases phase with
  | closing seen sent status => exact h
  | _ => exact h

namespace Sound

theorem later (h : Sound L c w) {ticks : ℕ} :
    Sound L c { w with time := w.time + ticks } where
  downloads d hd := (h.downloads d hd).later (Nat.le_add_right _ _) List.prefix_rfl
  rows := h.rows

theorem row_set (h : Sound L c w) {i n : ℕ} {r : LogRow} (hr : w.log[n]? = some r)
    (hd : w.downloads[i]? = some d)
    (hended : ∀ seen row, d.phase = .ended seen row → phase = d.phase) :
    ∃ d' ∈ w.downloads.set i { d with phase := phase }, ∃ seen,
      d'.phase = .ended seen (some n) := by
  obtain ⟨d', hd', seen, hseen⟩ := h.rows n r hr
  obtain ⟨j, hj⟩ := List.mem_iff_getElem?.mp hd'
  by_cases hij : i = j
  · have hsame : d' = d := by
      rw [← hij, hd] at hj
      exact (Option.some.inj hj).symm
    have hi : i < w.downloads.length := (List.getElem?_eq_some_iff.mp hd).1
    refine ⟨{ d with phase := phase }, List.mem_set hi _, seen, ?_⟩
    rw [hsame] at hseen
    exact (hended seen (some n) hseen).trans hseen
  · have hkept : (w.downloads.set i { d with phase := phase })[j]? = some d' := by
      rw [List.getElem?_set_ne hij, hj]
    exact ⟨d', List.mem_of_getElem? hkept, seen, hseen⟩

theorem setPhase (h : Sound L c w) {i : ℕ} (hd : w.downloads[i]? = some d)
    (hphase : PhaseRight L c w d phase)
    (hended : ∀ seen row, d.phase = .ended seen row → phase = d.phase) :
    Sound L c (w.setPhase i d phase) where
  downloads := forall_mem_set h.downloads hphase
  rows _ _ hr := h.row_set hr hd hended

theorem move (h : Sound L c w) (i : ℕ) {f : Download → Phase → Phase}
    (hright : ∀ d phase, PhaseRight L c w d phase → PhaseRight L c w d (f d phase))
    (hended : ∀ d seen row, f d (.ended seen row) = .ended seen row) :
    Sound L c (w.move i f) := by
  rw [World.move]
  split
  case h_1 => exact h
  case h_2 d hd =>
      refine h.setPhase hd (hright d _ (h.downloads d (List.mem_of_getElem? hd))) ?_
      intro seen row hphase
      rw [hphase, hended]

theorem commit (h : Sound L c w) (i : ℕ) (works : Bool) : Sound L c (w.commit L i works) := by
  rw [World.commit]
  split
  case h_1 => exact h
  case h_2 d hd =>
      split
      case h_2 => exact h
      case h_1 seen sent status requestedAt hphase =>
          have hright := h.downloads d (List.mem_of_getElem? hd)
          rw [hphase] at hright
          have hended : ∀ phase seen row, d.phase = .ended seen row → phase = d.phase := by
            intro phase seen row hended
            rw [hphase] at hended
            cases hended
          cases works with
          | false =>
              refine h.setPhase hd ⟨hright.1, ?_⟩ (hended _)
              intro n hn
              cases hn
          | true =>
              have hlog : w.log <+: w.log ++ [LogRow.ofStream L d sent status requestedAt] :=
                List.prefix_append _ _
              have hspaced := hright.2.2.later hright.1 hlog le_rfl
              refine ⟨forall_mem_set ?_ ⟨?_, ?_⟩, ?_⟩
              · intro d' hd'
                exact (h.downloads d' hd').later le_rfl hlog
              · exact fun k hk => (take_eq_of_isPrefix hlog (hright.1 k hk)).1
              · intro n hn
                cases hn
                exact ⟨sent, status, requestedAt, List.getElem?_concat_length, hright.2.1, hspaced⟩
              · intro n r hr
                cases getElem?_concat_cases hr with
                | inl hold => exact h.row_set hold hd (hended _)
                | inr hnew =>
                    have hi : i < w.downloads.length := (List.getElem?_eq_some_iff.mp hd).1
                    exact ⟨_, List.mem_set hi _, seen, by rw [hnew.1]⟩

theorem step (h : Sound L c w) (e : Event) : Sound L c (w.step L c e) := by
  cases e with
  | tick ticks => exact h.later
  | request tenantId plan db exportedAt =>
      refine ⟨forall_mem_append_singleton h.downloads ?_, ?_⟩
      · dsimp only
        split
        · trivial
        · trivial
      · intro n r hr
        obtain ⟨d, hd, hrow⟩ := h.rows n r hr
        exact ⟨d, List.mem_append_left _ hd, hrow⟩
  | look i works => exact h.move i (fun _ _ hd => right_look hd works) fun _ _ _ => rfl
  | letIn i => exact h.move i (fun _ _ hd => right_admit hd) fun _ _ _ => rfl
  | resume i => exact h.move i (fun _ _ hd => right_resume hd) fun _ _ _ => rfl
  | abort i raised => exact h.move i (fun _ _ hd => right_abort hd raised) fun _ _ _ => rfl
  | begin i => exact h.move i (fun _ _ hd => right_begin hd) fun _ _ _ => rfl
  | commit i works => exact h.commit i works

end Sound

end Steps

section Streams
variable {L : Limits} {db : Backup.Database} {tenantId exportedAt : CodePoints}

theorem length_stream :
    (stream db tenantId exportedAt).length = (envelopes db tenantId exportedAt).length :=
  List.length_map _

theorem find_take {n : ℕ} (hn : n < (envelopes db tenantId exportedAt).length) :
    ((stream db tenantId exportedAt).take n).find? isFooterLine = none := by
  rw [List.find?_eq_none]
  intro line hline
  rw [stream, ← List.map_take] at hline
  obtain ⟨v, hv, hdump⟩ := List.mem_map.mp hline
  have hmem := List.mem_of_mem_take hv
  have hnot : ¬ IsFooter v := by
    intro hfooter
    have hall := (footer_mem_take db tenantId exportedAt hn.le).mp ⟨v, hv, hfooter⟩
    omega
  rw [← hdump]
  exact fun h => hnot ((isFooterLine_iff db tenantId exportedAt hmem ['\n']).mp h)

theorem find_stream : (stream db tenantId exportedAt).find? isFooterLine =
    some (dump (lastFooter db tenantId) ++ ['\n']) := by
  have hmem := (mem_envelopes db tenantId exportedAt).mpr (Or.inr rfl)
  have hlast : isFooterLine (dump (lastFooter db tenantId) ++ ['\n']) :=
    (isFooterLine_iff db tenantId exportedAt hmem ['\n']).mpr (isFooter_lastFooter db tenantId)
  have hlength : (envelopes db tenantId exportedAt).length - 1 <
      (envelopes db tenantId exportedAt).length := by simp [envelopes]
  have hbefore := find_take hlength
  rw [stream, envelopes_eq, ← List.cons_append, List.map_append] at hbefore ⊢
  rw [List.length_append, List.length_singleton, Nat.add_sub_cancel,
    List.take_append_of_le_length (by rw [List.length_map]), ← List.map_take,
    List.take_length] at hbefore
  rw [List.find?_append, hbefore, List.map_singleton, List.find?_singleton, if_pos hlast]
  rfl

theorem countTables_take (h : Receivable L db tenantId exportedAt) {n : ℕ}
    (hn : n ≤ (stream db tenantId exportedAt).length) :
    countTables L ((stream db tenantId exportedAt).take n) =
      if n = (stream db tenantId exportedAt).length then backupTables.length else 0 := by
  by_cases hall : n = (stream db tenantId exportedAt).length
  · have hmem := (mem_envelopes db tenantId exportedAt).mpr (Or.inr rfl)
    have hfields := fields_footer (totalCount db tenantId)
      (backupTables.map (tableCount db tenantId))
    rw [if_pos hall, hall, List.take_length, countTables, find_stream]
    simp only [loads_dump (h.readable hmem) ['\n'] rfl]
    rw [lastFooter, hfields.2]
    exact List.length_map _
  · rw [length_stream] at hn hall
    rw [length_stream, if_neg hall, countTables, find_take (by omega)]

theorem length_take_flatten {n : ℕ} (hn : n ≤ (stream db tenantId exportedAt).length) :
    ((stream db tenantId exportedAt).take n).flatten.length =
        (stream db tenantId exportedAt).flatten.length ↔
      n = (stream db tenantId exportedAt).length := by
  refine ⟨?_, fun h => by rw [h, List.take_length]⟩
  intro h
  by_contra hne
  have hlt : n < (stream db tenantId exportedAt).length := by omega
  have hsplit := congrArg (fun l => l.flatten.length)
    (List.take_append_drop n (stream db tenantId exportedAt))
  simp only [List.flatten_append, List.length_append] at hsplit
  have hnil : ((stream db tenantId exportedAt).drop n).flatten = [] := by
    rw [← List.length_eq_zero_iff]
    omega
  rw [List.flatten_eq_nil_iff] at hnil
  have hdrop : ((stream db tenantId exportedAt).drop n) ≠ [] := by
    rw [Ne, List.drop_eq_nil_iff]
    omega
  obtain ⟨line, hline⟩ := List.exists_mem_of_ne_nil _ hdrop
  obtain ⟨v, _, hdump⟩ := List.mem_map.mp (List.mem_of_mem_drop hline)
  have hempty := hnil line hline
  rw [← hdump] at hempty
  simp at hempty

end Streams

/-- A row of the log is of a download whose lookup, where it worked, saw no success of the tenant
within a day of the row, up to what the clocks differ. All bytes of a success were streamed, and
the tables are counted exactly if all bytes were. A download is refused only for a success of the
last day, and told the whole seconds that are left of it. -/
structure Served (L : Limits) (c : Clocks) (w : World) : Prop where
  rows : ∀ n r, w.log[n]? = some r → ∃ d ∈ w.downloads, ∃ seen,
    d.phase = .ended seen (some n) ∧ d.tenantId = r.tenantId ∧
      (∀ k ∈ seen, ∀ r' ∈ w.log.take k, r'.IsSuccess r.tenantId →
        r'.requestedAt + window ≤ r.requestedAt + c.skew) ∧
      (r.status = .success → r.bytesStreamed = d.lines.flatten.length) ∧
      (Receivable L d.db d.tenantId d.exportedAt → r.tablesExported =
        if r.bytesStreamed = d.lines.flatten.length then backupTables.length else 0)
  refused : ∀ d ∈ w.downloads, ∀ now last retryAfter, d.phase = .refused now last retryAfter →
    (∃ r ∈ w.log, r.IsSuccess d.tenantId ∧ r.requestedAt = last) ∧ now < last + window ∧
      1000000 * retryAfter ≤ last + window - now ∧
        last + window - now < 1000000 * (retryAfter + 1)

section Runs
variable {L : Limits} {c : Clocks} {w : World}

theorem Sound.served (h : Sound L c w) : Served L c w where
  rows n r hr := by
    obtain ⟨d, hd, seen, hphase⟩ := h.rows n r hr
    have hright := h.downloads d hd
    rw [hphase] at hright
    obtain ⟨sent, status, requestedAt, hrow, hsent, hspaced⟩ := hright.2 n rfl
    rw [hr] at hrow
    obtain rfl := Option.some.inj hrow
    refine ⟨d, hd, seen, hphase, rfl, hspaced, ?_, ?_⟩
    · intro hsuccess
      exact (length_take_flatten hsent.1).mpr (hsent.2 hsuccess)
    · intro hreceivable
      have hcount := countTables_take hreceivable hsent.1
      exact hcount.trans (if_congr (length_take_flatten hsent.1).symm rfl rfl)
  refused d hd now last retryAfter hphase := by
    have hright := h.downloads d hd
    rw [hphase] at hright
    exact hright

theorem downloads_served (events : List Event) :
    Always (World.step L c) (Served L c) ⟨0, [], []⟩ events := by
  have hstart : Sound L c ⟨0, [], []⟩ := ⟨by simp, by simp⟩
  exact Always.mono (fun w h => h.served) (always_of_step (fun w e h => h.step e) hstart events)

end Runs

end Engramia.Governance.BackupDownload
