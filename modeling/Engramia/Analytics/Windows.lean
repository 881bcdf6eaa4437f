import Engramia.Analytics.Rollup
import Engramia.Library.OrderedDict
import Mathlib.Algebra.Order.Floor.Ring
import Mathlib.Tactic.Ring

/-!
Rollups of a window. The label of a rollup is the start of the calendar window, but the events
come from a window that ends with the run. The second reaches back behind the first, so a rollup
counts events of the window before, and fewer of them the later it is computed.

A run reads the clock for the events, for the label and for the stamp of the rollups.
-/
namespace Engramia.Analytics
open Engramia.Library Engramia.Storage

section Definitions

def Window.seconds : Window → ℕ
  | .hourly => 3600
  | .daily => 86400
  | .weekly => 604800

def Window.name : Window → Text
  | .hourly => ['h', 'o', 'u', 'r', 'l', 'y']
  | .daily => ['d', 'a', 'i', 'l', 'y']
  | .weekly => ['w', 'e', 'e', 'k', 'l', 'y']

/-- The remainder of `%`. -/
def pyMod (x : ℚ) (y : ℕ) : ℚ := x - y * ⌊x / y⌋

/-- `_window_start_iso` -/
def windowStart (w : Window) (now : ℚ) : ℤ := ⌊now - pyMod now w.seconds⌋

def rollupPrefix : Text :=
  ['a', 'n', 'a', 'l', 'y', 't', 'i', 'c', 's', '/', 'r', 'o', 'l', 'l', 'u', 'p']

abbrev EventScope := Text × Text

def ROIEvent.scope (e : ROIEvent) : EventScope := (e.scopeTenant, e.scopeProject)

def rollupKey (w : Window) (scope : EventScope) : Text :=
  rollupPrefix ++ '/' :: (w.name ++ '/' :: (scope.1 ++ '/' :: scope.2))

/-- The stored list of events; an item that is no event is skipped. -/
abbrev EventLog := List (Option ROIEvent)

def loadEvents (sinceTs : ℚ) (raw : EventLog) : List ROIEvent :=
  (raw.filterMap id).filter fun e => ¬ e.ts < sinceTs

/-- The events of each scope, in the order of the log. -/
def groupEvents (events : List ROIEvent) : OrderedDict EventScope (List ROIEvent) :=
  events.foldl (fun grouped e => grouped.set e.scope ((grouped.get? e.scope).getD [] ++ [e]))
    OrderedDict.empty

structure RunClock where
  started : ℚ
  labelled : ℚ
  finished : ℚ
  ordered : started ≤ labelled ∧ labelled ≤ finished

abbrev SavedRollups := OrderedDict Text ROIRollup

variable (w : Window) (clock : RunClock) (raw : EventLog)

/-- The rollup of a scope under the label and the stamp of a run. -/
def scopeRollup (scope : EventScope) (events : List ROIEvent) : Option ROIRollup :=
  computeRollup scope.1 scope.2 w (windowStart w clock.labelled) ⌊clock.finished⌋ events

def saveRollup (st : SavedRollups × List ROIRollup) (x : EventScope × List ROIEvent) :
    Option (SavedRollups × List ROIRollup) := do
  let r ← scopeRollup w clock x.1 x.2
  return (st.1.set (rollupKey w x.1) r, st.2 ++ [r])

def loaded : List ROIEvent := loadEvents (clock.started - w.seconds) raw

/-- `ROIAggregator.rollup` for a supported window -/
def rollup (saved : SavedRollups) : Option (SavedRollups × List ROIRollup) :=
  (groupEvents (loaded w clock raw)).entries.foldlM (saveRollup w clock) (saved, [])

def ofScope (scope : EventScope) (events : List ROIEvent) : List ROIEvent :=
  events.filter (·.scope = scope)

/-- In the window of the label, up to the run. -/
def InWindow (e : ROIEvent) : Prop :=
  (windowStart w clock.labelled : ℚ) ≤ e.ts ∧ e.ts ≤ clock.labelled

instance : DecidablePred (InWindow w clock) := fun _ =>
  inferInstanceAs (Decidable (_ ∧ _))

def labelledEvents : List ROIEvent := (raw.filterMap id).filter fun e => InWindow w clock e

/-- Every scope with events in the window, and every other scope the run saves a rollup for,
has the rollup of its events in the window. -/
def SavesExactly (saved : SavedRollups) : Prop :=
  ∀ scope, ofScope scope (labelledEvents w clock raw) ≠ [] ∨
      ofScope scope (loaded w clock raw) ≠ [] →
    ∃ r, saved.get? (rollupKey w scope) = some r ∧
      scopeRollup w clock scope (ofScope scope (labelledEvents w clock raw)) = some r

/-- A rollup without the time at which it was computed. -/
def ROIRollup.timeless (r : ROIRollup) : ROIRollup := { r with computedAt := 0 }

/-- Two runs, one after the other on one log, save the same rollups, each of exactly the events
of its window. -/
def Reproducible (clock' : RunClock) (saved : SavedRollups) : Prop :=
  ∃ s₁ rs₁ s₂ rs₂, rollup w clock raw saved = some (s₁, rs₁) ∧
    rollup w clock' raw s₁ = some (s₂, rs₂) ∧
    (∀ scope, (s₂.get? (rollupKey w scope)).map (·.timeless) =
      (s₁.get? (rollupKey w scope)).map (·.timeless)) ∧
    SavesExactly w clock raw s₁ ∧ SavesExactly w clock' raw s₂

/-- What the run loads is in the window of its label. -/
def NoStray : Prop :=
  ∀ e ∈ raw.filterMap id, clock.started - w.seconds ≤ e.ts → InWindow w clock e

def KeysApart : Prop :=
  ∀ e ∈ loaded w clock raw, ∀ e' ∈ loaded w clock raw,
    rollupKey w e.scope = rollupKey w e'.scope → e.scope = e'.scope

end Definitions

section Windows
variable {w : Window} {clock : RunClock} {raw : EventLog}

theorem Window.seconds_pos (w : Window) : 0 < w.seconds := by
  cases w <;> decide

theorem windowStart_eq (w : Window) (now : ℚ) :
    windowStart w now = w.seconds * ⌊now / w.seconds⌋ := by
  have hsub : now - pyMod now w.seconds = ((w.seconds * ⌊now / w.seconds⌋ : ℤ) : ℚ) := by
    rw [pyMod]
    push_cast
    ring
  rw [windowStart, hsub, Int.floor_intCast]

theorem lt_windowStart (w : Window) (now : ℚ) : now - w.seconds < windowStart w now := by
  have hpos : (0 : ℚ) < w.seconds := Nat.cast_pos.mpr w.seconds_pos
  have hfloor := Int.lt_floor_add_one (now / (w.seconds : ℚ))
  rw [div_lt_iff₀ hpos] at hfloor
  rw [windowStart_eq]
  push_cast
  linarith

theorem mem_loaded {e : ROIEvent} :
    e ∈ loaded w clock raw ↔ e ∈ raw.filterMap id ∧ clock.started - w.seconds ≤ e.ts := by
  rw [loaded, loadEvents, List.mem_filter]
  simp

theorem labelledEvents_eq :
    labelledEvents w clock raw = (loaded w clock raw).filter fun e => InWindow w clock e := by
  rw [labelledEvents, loaded, loadEvents, List.filter_filter]
  apply List.filter_congr
  intro e _
  rw [eq_comm, Bool.and_eq_left_iff_imp, decide_eq_true_eq, decide_eq_true_eq, not_lt]
  intro h
  have hstart := lt_windowStart w clock.labelled
  have hordered := clock.ordered.1
  linarith [h.1]

theorem labelledEvents_of_noStray (h : NoStray w clock raw) :
    labelledEvents w clock raw = loaded w clock raw := by
  rw [labelledEvents_eq, List.filter_eq_self]
  intro e he
  obtain ⟨hmem, hsince⟩ := mem_loaded.mp he
  exact decide_eq_true (h e hmem hsince)

end Windows

section Groups
variable {events : List ROIEvent} {scope : EventScope}

theorem get?_groupEvents (events : List ROIEvent) (scope : EventScope) :
    (groupEvents events).get? scope =
      if ofScope scope events = [] then none else some (ofScope scope events) := by
  induction events using List.reverseRecOn with
  | nil => rfl
  | append_singleton events e ih =>
      have hgroup : groupEvents (events ++ [e]) =
          (groupEvents events).set e.scope
            (((groupEvents events).get? e.scope).getD [] ++ [e]) := by
        rw [groupEvents, List.foldl_append]
        rfl
      have hnew : ofScope scope (events ++ [e]) =
          ofScope scope events ++ if e.scope = scope then [e] else [] := by
        rw [ofScope, ofScope, List.filter_append, List.filter_singleton]
        simp
      rw [hgroup, OrderedDict.get?_set, hnew]
      by_cases hscope : scope = e.scope
      · subst hscope
        rw [ih, if_pos rfl, if_pos rfl]
        by_cases hnil : ofScope e.scope events = [] <;> simp [hnil]
      · rw [if_neg hscope, if_neg (Ne.symm hscope), ih, List.append_nil]

theorem mem_groupEvents {x : EventScope × List ROIEvent} :
    x ∈ (groupEvents events).entries ↔ ofScope x.1 events ≠ [] ∧ x.2 = ofScope x.1 events := by
  have hget := get?_groupEvents events x.1
  have hmem := OrderedDict.get?_eq_some (d := groupEvents events) (k := x.1) (v := x.2)
  rw [← hmem, hget]
  by_cases hnil : ofScope x.1 events = []
  · simp [hnil]
  · simp [hnil, eq_comm]

end Groups

section Saving
variable {w : Window} {clock : RunClock} {raw : EventLog}

theorem exists_learnSummary (events : List ROIEvent) :
    ∃ l, learnSummary events = some l ∧ l.total = events.length := by
  by_cases hnil : learnScores events = []
  · exact ⟨_, learnSummary_empty hnil, rfl⟩
  · obtain ⟨l, hl, htotal, _⟩ := learnSummary_spec hnil
    exact ⟨l, hl, htotal⟩

theorem length_recalled_add_learned (events : List ROIEvent) :
    (recalled events).length + (learned events).length = events.length := by
  induction events with
  | nil => rfl
  | cons e events ih =>
      rw [recalled, learned] at ih ⊢
      cases hkind : e.kind with
      | learn | «recall» =>
          simp only [List.filter_cons, hkind, List.length_cons]
          simp
          omega

theorem scopeRollup_spec (w : Window) (clock : RunClock) (scope : EventScope)
    (events : List ROIEvent) :
    ∃ r, scopeRollup w clock scope events = some r ∧ (r.tenantId, r.projectId) = scope ∧
      r.recall.total + r.learn.total = events.length := by
  obtain ⟨outcome, hrecall, hrecallTotal, _⟩ := recallOutcome_spec (recalled events)
  obtain ⟨learn, hlearn, hlearnTotal⟩ := exists_learnSummary (learned events)
  refine ⟨_, by rw [scopeRollup, computeRollup, hrecall, hlearn]; rfl, rfl, ?_⟩
  change outcome.total + learn.total = events.length
  rw [hrecallTotal, hlearnTotal, length_recalled_add_learned]

/-- The entry that a run saves last under a key. -/
def lastSaved (w : Window) (groups : List (EventScope × List ROIEvent)) (k : Text) :
    Option (EventScope × List ROIEvent) :=
  groups.reverse.find? fun x => rollupKey w x.1 = k

/-- What saving some groups leaves under each key. -/
def LeftBy (w : Window) (clock : RunClock) (groups : List (EventScope × List ROIEvent))
    (saved s : SavedRollups) : Prop :=
  ∀ k, s.get? k = match lastSaved w groups k with
    | some x => scopeRollup w clock x.1 x.2
    | none => saved.get? k

theorem saveRollups_spec (w : Window) (clock : RunClock)
    (groups : List (EventScope × List ROIEvent)) (st : SavedRollups × List ROIRollup) :
    ∃ st', groups.foldlM (saveRollup w clock) st = some st' ∧
      LeftBy w clock groups st.1 st'.1 := by
  induction groups generalizing st with
  | nil => exact ⟨st, rfl, fun k => rfl⟩
  | cons x groups ih =>
      obtain ⟨r, hr, _⟩ := scopeRollup_spec w clock x.1 x.2
      obtain ⟨st', hst', hget⟩ := ih (st.1.set (rollupKey w x.1) r, st.2 ++ [r])
      refine ⟨st', ?_, ?_⟩
      · rw [List.foldlM_cons, saveRollup, hr]
        exact hst'
      · intro k
        rw [hget k, lastSaved, lastSaved, List.reverse_cons, List.find?_append]
        cases groups.reverse.find? fun x => rollupKey w x.1 = k with
        | some y => rfl
        | none =>
            rw [Option.none_or, OrderedDict.get?_set]
            by_cases hk : k = rollupKey w x.1
            · rw [if_pos hk, List.find?_singleton, if_pos (decide_eq_true hk.symm)]
              exact hr.symm
            · rw [if_neg hk, List.find?_singleton, if_neg (by simpa using Ne.symm hk)]

end Saving

section Runs
variable {w : Window} {clock clock' : RunClock} {raw : EventLog} {saved : SavedRollups}
  {groups : List (EventScope × List ROIEvent)} {x : EventScope × List ROIEvent} {k : Text}

theorem lastSaved_eq_some (h : lastSaved w groups k = some x) :
    x ∈ groups ∧ rollupKey w x.1 = k :=
  ⟨List.mem_reverse.mp (List.mem_of_find?_eq_some h), by simpa using List.find?_some h⟩

theorem exists_lastSaved (hx : x ∈ groups) :
    ∃ y, lastSaved w groups (rollupKey w x.1) = some y := by
  rw [← Option.isSome_iff_exists, lastSaved, List.find?_isSome]
  exact ⟨x, List.mem_reverse.mpr hx, by simp⟩

theorem rollup_spec (w : Window) (clock : RunClock) (raw : EventLog) (saved : SavedRollups) :
    ∃ s rs, rollup w clock raw saved = some (s, rs) ∧
      LeftBy w clock (groupEvents (loaded w clock raw)).entries saved s := by
  obtain ⟨st, hst, hleft⟩ :=
    saveRollups_spec w clock (groupEvents (loaded w clock raw)).entries (saved, [])
  exact ⟨st.1, st.2, hst, hleft⟩

theorem SavesExactly.scopeRollup_eq {s : SavedRollups} (h : SavesExactly w clock raw s)
    (hleft : LeftBy w clock (groupEvents (loaded w clock raw)).entries saved s) {scope : EventScope}
    (hscope : ofScope scope (loaded w clock raw) ≠ []) :
    ∃ x, lastSaved w (groupEvents (loaded w clock raw)).entries (rollupKey w scope) = some x ∧
      x.1 = scope ∧ (ofScope scope (labelledEvents w clock raw)).length =
        (ofScope scope (loaded w clock raw)).length := by
  obtain ⟨r, hr, hlabelled⟩ := h scope (.inr hscope)
  have hgroup : (scope, ofScope scope (loaded w clock raw)) ∈
      (groupEvents (loaded w clock raw)).entries := mem_groupEvents.mpr ⟨hscope, rfl⟩
  obtain ⟨x, hx⟩ := exists_lastSaved (w := w) hgroup
  have hxmem := (lastSaved_eq_some hx).1
  rw [hleft _, hx] at hr
  obtain ⟨r₁, hr₁, hids, htotal⟩ := scopeRollup_spec w clock x.1 x.2
  obtain ⟨r₂, hr₂, hids', htotal'⟩ :=
    scopeRollup_spec w clock scope (ofScope scope (labelledEvents w clock raw))
  have hsame : r₁ = r := Option.some.inj (hr₁.symm.trans hr)
  have hsame' : r₂ = r := Option.some.inj (hr₂.symm.trans hlabelled)
  have hxscope : x.1 = scope := by rw [← hids, ← hids', hsame, hsame']
  refine ⟨x, hx, hxscope, ?_⟩
  rw [← htotal', hsame', ← hsame, htotal, (mem_groupEvents.mp hxmem).2, hxscope]

theorem ofScope_ne_nil {e : ROIEvent} {events : List ROIEvent} (he : e ∈ events) :
    ofScope e.scope events ≠ [] :=
  List.ne_nil_of_mem (List.mem_filter.mpr ⟨he, decide_eq_true rfl⟩)

theorem noStray_of_savesExactly {s : SavedRollups} (h : SavesExactly w clock raw s)
    (hleft : LeftBy w clock (groupEvents (loaded w clock raw)).entries saved s) :
    NoStray w clock raw := by
  intro e he hsince
  have hloaded : e ∈ loaded w clock raw := mem_loaded.mpr ⟨he, hsince⟩
  obtain ⟨_, _, _, hlength⟩ := h.scopeRollup_eq hleft (ofScope_ne_nil hloaded)
  have hfilter : ofScope e.scope (labelledEvents w clock raw) =
      (ofScope e.scope (loaded w clock raw)).filter fun e => InWindow w clock e := by
    rw [labelledEvents_eq, ofScope, ofScope, List.filter_filter, List.filter_filter]
    simp only [Bool.and_comm]
  rw [hfilter, List.length_filter_eq_length_iff] at hlength
  exact of_decide_eq_true
    (hlength e (List.mem_filter.mpr ⟨hloaded, decide_eq_true rfl⟩))

theorem keysApart_of_savesExactly {s : SavedRollups} (h : SavesExactly w clock raw s)
    (hleft : LeftBy w clock (groupEvents (loaded w clock raw)).entries saved s) :
    KeysApart w clock raw := by
  intro e he e' he' hkey
  obtain ⟨x, hx, hscope, _⟩ := h.scopeRollup_eq hleft (ofScope_ne_nil he)
  obtain ⟨x', hx', hscope', _⟩ := h.scopeRollup_eq hleft (ofScope_ne_nil he')
  rw [hkey, hx'] at hx
  cases hx
  rw [← hscope, ← hscope']

theorem lastSaved_of_keysApart (h : KeysApart w clock raw) {scope : EventScope}
    (hscope : ofScope scope (loaded w clock raw) ≠ []) :
    lastSaved w (groupEvents (loaded w clock raw)).entries (rollupKey w scope) =
      some (scope, ofScope scope (loaded w clock raw)) := by
  have hgroup : (scope, ofScope scope (loaded w clock raw)) ∈
      (groupEvents (loaded w clock raw)).entries := mem_groupEvents.mpr ⟨hscope, rfl⟩
  obtain ⟨x, hx⟩ := exists_lastSaved (w := w) hgroup
  obtain ⟨hmem, hkey⟩ := lastSaved_eq_some hx
  obtain ⟨hne, hevents⟩ := mem_groupEvents.mp hmem
  obtain ⟨e, he⟩ := List.exists_mem_of_ne_nil _ hne
  obtain ⟨e', he'⟩ := List.exists_mem_of_ne_nil _ hscope
  obtain ⟨hload, hes⟩ := List.mem_filter.mp he
  obtain ⟨hload', hes'⟩ := List.mem_filter.mp he'
  have hesc := of_decide_eq_true hes
  have hesc' := of_decide_eq_true hes'
  have hsame : x.1 = scope := by
    rw [← hesc, ← hesc']
    apply h e hload e' hload'
    rw [hesc, hesc', hkey]
  rw [hx]
  exact congrArg some (Prod.ext hsame (by rw [hevents, hsame]))

theorem savesExactly_of_clean {s : SavedRollups} (hstray : NoStray w clock raw)
    (hkeys : KeysApart w clock raw)
    (hleft : LeftBy w clock (groupEvents (loaded w clock raw)).entries saved s) :
    SavesExactly w clock raw s := by
  intro scope hscope
  rw [labelledEvents_of_noStray hstray, or_self] at hscope
  obtain ⟨r, hr, _⟩ := scopeRollup_spec w clock scope (ofScope scope (loaded w clock raw))
  refine ⟨r, ?_, ?_⟩
  · rw [hleft _, lastSaved_of_keysApart hkeys hscope]
    exact hr
  · rw [labelledEvents_of_noStray hstray]
    exact hr

end Runs

section Pairs
variable {w : Window} {clock clock' : RunClock} {raw : EventLog}

theorem loaded_eq (hstray : NoStray w clock raw) (hstray' : NoStray w clock' raw)
    (hlabel : windowStart w clock.labelled = windowStart w clock'.labelled) :
    loaded w clock' raw = loaded w clock raw := by
  have hreach (c c' : RunClock) (h : NoStray w c raw)
      (hsame : windowStart w c.labelled = windowStart w c'.labelled) (e : ROIEvent)
      (he : e ∈ raw.filterMap id) (hsince : c.started - w.seconds ≤ e.ts) :
      c'.started - w.seconds ≤ e.ts := by
    have hstart := (h e he hsince).1
    have hlate := lt_windowStart w c'.labelled
    have hordered := c'.ordered.1
    rw [hsame] at hstart
    linarith
  rw [loaded, loaded, loadEvents, loadEvents]
  apply List.filter_congr
  intro e he
  rw [decide_eq_decide, not_lt, not_lt]
  exact ⟨hreach clock' clock hstray' hlabel.symm e he, hreach clock clock' hstray hlabel e he⟩

theorem scopeRollup_timeless (hlabel : windowStart w clock.labelled = windowStart w clock'.labelled)
    (scope : EventScope) (events : List ROIEvent) :
    (scopeRollup w clock' scope events).map (·.timeless) =
      (scopeRollup w clock scope events).map (·.timeless) := by
  rw [scopeRollup, scopeRollup, computeRollup, computeRollup, hlabel]
  cases recallOutcome (recalled events) with
  | none => rfl
  | some outcome => cases learnSummary (learned events) <;> rfl

theorem clean_of_reproducible {saved : SavedRollups} (h : Reproducible w clock raw clock' saved) :
    (NoStray w clock raw ∧ KeysApart w clock raw) ∧
      NoStray w clock' raw ∧ KeysApart w clock' raw := by
  obtain ⟨s, rs, s', rs', hfirst, hsecond, _, hexact, hexact'⟩ := h
  obtain ⟨s₁, rs₁, hrun, hleft⟩ := rollup_spec w clock raw saved
  obtain ⟨s₂, rs₂, hrun', hleft'⟩ := rollup_spec w clock' raw s
  rw [hrun] at hfirst
  cases hfirst
  rw [hrun'] at hsecond
  cases hsecond
  exact ⟨⟨noStray_of_savesExactly hexact hleft, keysApart_of_savesExactly hexact hleft⟩,
    noStray_of_savesExactly hexact' hleft', keysApart_of_savesExactly hexact' hleft'⟩

end Pairs

/-- Two runs with one label are reproducible exactly when neither loads an event from outside the
window and no two scopes that they load share a storage key. -/
theorem rollup_reproducible_iff (w : Window) (clock clock' : RunClock) (raw : EventLog)
    (saved : SavedRollups)
    (hlabel : windowStart w clock.labelled = windowStart w clock'.labelled) :
    Reproducible w clock raw clock' saved ↔
      (NoStray w clock raw ∧ KeysApart w clock raw) ∧
        NoStray w clock' raw ∧ KeysApart w clock' raw := by
  constructor
  · exact clean_of_reproducible
  · intro h
    obtain ⟨⟨hstray, hkeys⟩, hstray', hkeys'⟩ := h
    obtain ⟨s, rs, hrun, hleft⟩ := rollup_spec w clock raw saved
    obtain ⟨s', rs', hrun', hleft'⟩ := rollup_spec w clock' raw s
    refine ⟨s, rs, s', rs', hrun, hrun', ?_, savesExactly_of_clean hstray hkeys hleft,
      savesExactly_of_clean hstray' hkeys' hleft'⟩
    intro scope
    have hlast := hleft (rollupKey w scope)
    rw [hleft' _, loaded_eq hstray hstray' hlabel]
    cases hsaved : lastSaved w (groupEvents (loaded w clock raw)).entries (rollupKey w scope) with
    | none => rfl
    | some x =>
        rw [hsaved] at hlast
        rw [hlast]
        exact scopeRollup_timeless hlabel x.1 x.2

section Sample

def RunClock.atOnce (now : ℚ) : RunClock where
  started := now
  labelled := now
  finished := now
  ordered := ⟨le_refl now, le_refl now⟩

/-- Ten past ten and five to eleven on the first of March 2026. -/
def tenPastTen : RunClock := .atOnce 1772359800

def fiveToEleven : RunClock := .atOnce 1772362500

def recallAt (ts : ℚ) : ROIEvent where
  kind := .recall
  ts := ts
  evalScore := none
  similarity := none
  reuseTier := none
  scopeTenant := ['a', 'c', 'm', 'e']
  scopeProject := ['p']

/-- Recalls at ten to ten and at five past ten. -/
def twoRecalls : EventLog := [some (recallAt 1772358600), some (recallAt 1772359500)]

theorem windowStart_tenPastTen : windowStart .hourly tenPastTen.labelled = 1772359200 := by
  have hfloor : ⌊(1772359800 : ℚ) / 3600⌋ = 492322 := by norm_num [Int.floor_eq_iff]
  rw [windowStart_eq]
  change (3600 : ℕ) * ⌊(1772359800 : ℚ) / 3600⌋ = 1772359200
  rw [hfloor]
  rfl

theorem windowStart_fiveToEleven :
    windowStart .hourly fiveToEleven.labelled = 1772359200 := by
  have hfloor : ⌊(1772362500 : ℚ) / 3600⌋ = 492322 := by norm_num [Int.floor_eq_iff]
  rw [windowStart_eq]
  change (3600 : ℕ) * ⌊(1772362500 : ℚ) / 3600⌋ = 1772359200
  rw [hfloor]
  rfl

theorem windowStart_ten :
    windowStart .hourly tenPastTen.labelled = windowStart .hourly fiveToEleven.labelled :=
  windowStart_tenPastTen.trans windowStart_fiveToEleven.symm

/-- Three recalls of the hour, between them an item that is no event. -/
def recallsOfHour : EventLog :=
  [some (recallAt 1772359260), none, some (recallAt 1772359500), some (recallAt 1772359800)]

theorem mem_recallsOfHour {e : ROIEvent} (he : e ∈ recallsOfHour.filterMap id) :
    e = recallAt 1772359260 ∨ e = recallAt 1772359500 ∨ e = recallAt 1772359800 := by
  simpa [recallsOfHour] using he

theorem recallsOfHour_clean {clock : RunClock}
    (hstart : windowStart .hourly clock.labelled = 1772359200)
    (hlabelled : 1772359800 ≤ clock.labelled) :
    NoStray .hourly clock recallsOfHour ∧ KeysApart .hourly clock recallsOfHour := by
  constructor
  · intro e he _
    have hwindow : 1772359200 ≤ e.ts ∧ e.ts ≤ 1772359800 := by
      obtain rfl | rfl | rfl := mem_recallsOfHour he <;> norm_num [recallAt]
    rw [InWindow, hstart]
    exact ⟨by exact_mod_cast hwindow.1, hwindow.2.trans hlabelled⟩
  · have hscope : ∀ e ∈ loaded .hourly clock recallsOfHour, e.scope = (recallAt 0).scope := by
      intro e he
      have hraw := (mem_loaded.mp he).1
      obtain rfl | rfl | rfl := mem_recallsOfHour hraw <;> rfl
    intro e he e' he' _
    rw [hscope e he, hscope e' he']

theorem rollup_reproducible_hour :
    Reproducible .hourly tenPastTen recallsOfHour fiveToEleven OrderedDict.empty :=
  (rollup_reproducible_iff .hourly tenPastTen fiveToEleven recallsOfHour OrderedDict.empty
    windowStart_ten).mpr
    ⟨recallsOfHour_clean windowStart_tenPastTen (by norm_num [tenPastTen, RunClock.atOnce]),
      recallsOfHour_clean windowStart_fiveToEleven
        (by norm_num [fiveToEleven, RunClock.atOnce])⟩

/-- The first of two runs in an hour counts an event of the hour before. -/
theorem earlier_hour_counted :
    ¬ ∀ (w : Window) (clock clock' : RunClock) (raw : EventLog) (saved : SavedRollups),
      windowStart w clock.labelled = windowStart w clock'.labelled →
      Reproducible w clock raw clock' saved := by
  intro h
  have hclean := clean_of_reproducible
    (h .hourly tenPastTen fiveToEleven twoRecalls OrderedDict.empty windowStart_ten)
  have hwindow := hclean.1.1 (recallAt 1772358600) List.mem_cons_self
    (by norm_num [tenPastTen, RunClock.atOnce, Window.seconds, recallAt])
  have hearly := hwindow.1
  rw [windowStart_tenPastTen] at hearly
  norm_num [recallAt] at hearly

end Sample

end Engramia.Analytics
