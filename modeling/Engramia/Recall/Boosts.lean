import Engramia.Library.Lists
import Engramia.Patterns.AgingCompletes
import Engramia.Recall.PageRuns

/-!
The reuse marks of a recall. The service marks every match that it returns to the handler, which
asks for four times as many as a page ends at, and filters them and cuts the page out afterwards.
So the patterns of a page are the ones that are marked exactly when the search finds nothing, or
when the page is the first one and everything that is found fits and passes.

The marks see the clock of the recall.
-/
namespace Engramia.Recall
open Engramia.Library Engramia.Storage Engramia.Patterns

section Definitions

def reusedPattern (p : PatternDoc) : PatternDoc :=
  { p with
    successScore := min 10 (p.successScore + 1 / 10)
    reuseCount := p.reuseCount + 1 }

/-- The document that one reuse leaves of a document. -/
def reusedDoc (N : PatternMath) (now : ℚ) (data : Json Text) : Json Text :=
  (validate N now data).elim data fun p => rewritten (reusedPattern p) data

/-- `SuccessPatternStore.mark_reused` -/
def markReused (N : PatternMath) (now : ℚ) (key : Text) (docs : KeyMap (Json Text)) :
    Except RecallError Unit × KeyMap (Json Text) :=
  match docs key with
  | none => (.ok (), docs)
  | some data =>
      match validate N now data with
      | none => (.error .validation, docs)
      | some p => (.ok (), Function.update docs key (some (rewritten (reusedPattern p) data)))

/-- The loop of marks, which ends where one raises. -/
def markAll (N : PatternMath) (now : ℚ) :
    List Text → KeyMap (Json Text) → Except RecallError Unit × KeyMap (Json Text)
  | [], docs => (.ok (), docs)
  | key :: keys, docs =>
      match markReused N now key docs with
      | (.error e, docs) => (.error e, docs)
      | (.ok _, docs) => markAll N now keys docs

variable (C : RecallContext) (s : RecallStore) (r : RecallRequest) (offset : ℕ)

/-- `RecallService.recall` with the documents that its marks leave. -/
def recallMarking (q : RecallQuery) : Except RecallError (List Match) × KeyMap (Json Text) :=
  match RecallService.recall C s q with
  | .error e => (.error e, s.load)
  | .ok result =>
      match markAll C.numbers C.now (result.map Match.patternKey) s.load with
      | (.error e, docs) => (.error e, docs)
      | (.ok _, docs) => (.ok result, docs)

/-- What the handler makes of the matches. -/
def pageOf (ms : List Match) : RecallResponse :=
  let filtered := ms.filter (passes r)
  let hasMore := offset + r.limit < filtered.length
  { found := (filtered.drop offset).take r.limit
    hasMore := hasMore
    nextOffset := if hasMore then some (offset + r.limit) else none }

/-- The handler of `POST /recall`, with the documents that it leaves. -/
def recallRoute : Except RecallError RecallResponse × KeyMap (Json Text) :=
  let answer := recallMarking C s (r.query offset)
  (answer.1.map (pageOf r offset), answer.2)

def returnedKeys : Except RecallError RecallResponse → List Text
  | .ok page => page.found.map Match.patternKey
  | .error _ => []

/-- The documents that a request changes are those of the page that it returns, each by one
reuse. -/
structure BoostsReturned : Prop where
  boosted : ∀ key ∈ returnedKeys (recallRoute C s r offset).1, ∃ data, s.load key = some data ∧
    (recallRoute C s r offset).2 key = some (reusedDoc C.numbers C.now data) ∧
    reusedDoc C.numbers C.now data ≠ data
  others : ∀ key, key ∉ returnedKeys (recallRoute C s r offset).1 →
    (recallRoute C s r offset).2 key = s.load key

/-- How many of the matches recall keeps: one of each group where it groups. -/
noncomputable def keptCount (ms : List Match) : ℕ :=
  if r.deduplicate then groupCount C.text (ms.map fun m => m.pattern.task) else ms.length

/-- Nothing that is found is left out of the page. -/
structure PageHoldsAll (ms : List Match) : Prop where
  first : offset = 0
  fits : keptCount C r ms ≤ r.limit
  pass : ∀ m ∈ arranged C (r.query offset) ms, passes r m = true

/-- What the search of a request finds, if it finds anything, is all on its page. -/
def NothingLeftOut : Prop :=
  ∀ ms, found C s (r.query offset) = .ok ms → ms = [] ∨ PageHoldsAll C r offset ms

end Definitions

section Marks
variable {N : PatternMath} {now : ℚ} {key : Text} {docs : KeyMap (Json Text)}

theorem markReused_row (rows : MemoryRows) (k : Text) :
    ((markReusedRow N now key rows).row? k).map MemoryRow.data =
      (markReused N now key fun key => (rows.row? key).map MemoryRow.data).2 k := by
  rw [markReusedRow, markReused]
  cases hrow : rows.row? key with
  | none => rfl
  | some r =>
      dsimp only [Option.map_some]
      cases hp : validate N now r.data with
      | none => rfl
      | some p =>
          dsimp only
          rw [row?_saveRow, Function.update_apply]
          by_cases hk : k = key
          · rw [if_pos hk, if_pos hk, Option.map_some, MemoryRow.data_saved]
            rfl
          · rw [if_neg hk, if_neg hk]

theorem markAll_spec {keys : List Text} (hnodup : keys.Nodup)
    (hpatterns : ∀ key ∈ keys, ∃ data p, docs key = some data ∧ validate N now data = some p) :
    (markAll N now keys docs).1 = .ok () ∧
      ∀ k, (markAll N now keys docs).2 k =
        if k ∈ keys then (docs k).map (reusedDoc N now) else docs k := by
  induction keys generalizing docs with
  | nil => exact ⟨rfl, fun _ => rfl⟩
  | cons key keys ih =>
      obtain ⟨hmem, hnodup⟩ := List.nodup_cons.mp hnodup
      obtain ⟨⟨data, p, hdata, hp⟩, hpatterns⟩ := List.forall_mem_cons.mp hpatterns
      have hmark : markReused N now key docs =
          (.ok (), Function.update docs key (some (reusedDoc N now data))) := by
        simp only [markReused, hdata, hp, reusedDoc, Option.elim_some]
      have hothers : ∀ k ∈ keys, Function.update docs key (some (reusedDoc N now data)) k =
          docs k := by
        intro k hk
        apply Function.update_of_ne
        intro heq
        exact hmem (heq ▸ hk)
      rw [markAll, hmark]
      dsimp only
      obtain ⟨hok, hafter⟩ := @ih (Function.update docs key (some (reusedDoc N now data))) hnodup
        fun k hk => by
          rw [hothers k hk]
          exact hpatterns k hk
      refine ⟨hok, ?_⟩
      intro k
      rw [hafter k]
      by_cases hk : k ∈ keys
      · rw [if_pos hk, if_pos (List.mem_cons_of_mem _ hk), hothers k hk]
      · rw [if_neg hk]
        by_cases heq : k = key
        · rw [heq, Function.update_self, if_pos List.mem_cons_self, hdata]
          rfl
        · rw [Function.update_of_ne heq, if_neg]
          intro h
          exact (List.mem_cons.mp h).elim heq hk

theorem reusedDoc_ne {data : Json Text} {p : PatternDoc} (hint : ∀ n, N.int (.int n) = some n)
    (hp : validate N now data = some p) : reusedDoc N now data ≠ data := by
  intro heq
  rw [reusedDoc, hp, Option.elim_some] at heq
  obtain ⟨_, _, _, hcount, _⟩ := validate_eq_some_iff.mp hp
  rw [← heq] at hcount
  have hafter : readOr N.int 0 ((rewritten (reusedPattern p) data).get? reuseCountField) =
      some (p.reuseCount + 1) := hint (p.reuseCount + 1)
  rw [hafter] at hcount
  injection hcount with hcount
  omega

end Marks

section Matches
variable {C : RecallContext} {s : RecallStore} {q : RecallQuery} {ms : List Match} {m : Match}

/-- A match has the pattern that is stored under its key. -/
def Stored (C : RecallContext) (s : RecallStore) (m : Match) : Prop :=
  loadPattern C s m.patternKey = some (some m.pattern)

theorem weighted_stored {task : Text} {x : Text × ℚ} {y : ℚ × Match}
    (h : weighted C s task x = some y) : Stored C s y.2 := by
  unfold weighted at h
  split at h
  next pattern hload =>
    cases h
    exact hload
  · cases h

theorem plain_stored {x : Text × ℚ} (h : plain C s x = some m) : Stored C s m := by
  unfold plain plainMatch at h
  split at h
  next pattern hload =>
    split at h
    · cases h
      exact hload
    · cases h
  · cases h

theorem keywordMatch_stored {task key : Text} (h : keywordMatch C s task key = some m) :
    Stored C s m := by
  unfold keywordMatch at h
  split at h
  next pattern hload =>
    dsimp only at h
    split at h
    · cases h
      exact hload
    · cases h
  · cases h

theorem find_stored {task : Text} {limit fetchMultiplier : ℕ}
    (h : find C s task limit fetchMultiplier = .ok ms) : ∀ m ∈ ms, Stored C s m := by
  unfold find at h
  cases hsearch : s.search (limit * max 1 fetchMultiplier) with
  | error e =>
      rw [hsearch] at h
      cases h
  | ok results =>
      rw [hsearch] at h
      cases h
      intro m hm
      obtain ⟨y, hy, rfl⟩ := List.mem_map.mp hm
      obtain ⟨x, _, hx⟩ := List.mem_filterMap.mp (mem_sortedDesc.mp (List.mem_of_mem_take hy))
      exact weighted_stored hx

theorem searched_stored {fetchMultiplier : ℕ} (h : searched C s q fetchMultiplier = .ok ms) :
    ∀ m ∈ ms, Stored C s m := by
  unfold searched at h
  split at h
  · exact find_stored h
  · cases hsearch : s.search (q.limit * fetchMultiplier) with
    | error e =>
        rw [hsearch] at h
        cases h
    | ok results =>
        rw [hsearch] at h
        change plainMatches C s results = .ok ms at h
        cases plainMatches_spec (C := C) (s := s) results with
        | inl herr =>
            rw [herr.2] at h
            cases h
        | inr hok =>
            rw [hok.2] at h
            cases h
            intro m hm
            obtain ⟨x, _, hx⟩ := List.mem_filterMap.mp hm
            exact plain_stored hx

theorem found_stored (h : found C s q = .ok ms) : ∀ m ∈ ms, Stored C s m := by
  unfold found at h
  split at h
  · cases h
    intro m hm
    obtain ⟨key, _, hkey⟩ := List.mem_filterMap.mp (mem_sortedDesc.mp (List.mem_of_mem_take hm))
    exact keywordMatch_stored hkey
  · exact searched_stored h

theorem arranged_stored (h : ∀ m ∈ ms, Stored C s m) : ∀ m ∈ arranged C q ms, Stored C s m := by
  have hweighed : ∀ m ∈ (if 0 < q.recencyWeight then
      applyRecencyWeight C q.recencyWeight q.recencyHalfLifeDays ms else ms), Stored C s m := by
    intro x hx
    split at hx
    · obtain ⟨m, hm, hkey, hpattern⟩ := mem_applyRecencyWeight hx
      rw [Stored, hkey, hpattern]
      exact h m hm
    · exact h x hx
  intro m hm
  rw [arranged] at hm
  split at hm
  · exact hweighed m (deduplicateMatches_sublist.subset hm)
  · exact hweighed m hm

end Matches

section Routes
variable {C : RecallContext} {s : RecallStore} {r : RecallRequest} {offset : ℕ} {ms : List Match}

theorem groupCount_pos (T : TextMethods) {tasks : List Text} (h : tasks ≠ []) :
    0 < groupCount T tasks := by
  have hpos := List.length_pos_iff.mpr h
  have : Nonempty (taskGraph T tasks.get).ConnectedComponent :=
    ⟨(taskGraph T tasks.get).connectedComponentMk ⟨0, hpos⟩⟩
  exact Nat.card_pos

variable (C r offset ms) in
theorem length_arranged_query :
    (arranged C (r.query offset) ms).length = keptCount C r ms := by
  rw [keptCount]
  by_cases hgroups : r.deduplicate = true
  · rw [if_pos hgroups]
    exact length_arranged hgroups
  · rw [if_neg hgroups]
    exact length_arranged_ungrouped (Bool.eq_false_iff.mpr hgroups) ms

theorem keptCount_eq_zero : keptCount C r ms = 0 ↔ ms = [] := by
  rw [keptCount]
  split
  · constructor
    · intro hzero
      by_contra hne
      have hpos := groupCount_pos C.text (List.map_eq_nil_iff.not.mpr hne :
        (ms.map fun m => m.pattern.task) ≠ [])
      omega
    · intro hms
      rw [hms]
      exact Nat.le_zero.mp (groupCount_le_length _)
  · exact List.length_eq_zero_iff

theorem recallRoute_of_found (h : found C s (r.query offset) = .ok ms) :
    (recallRoute C s r offset).1 =
        .ok (pageOf r offset ((arranged C (r.query offset) ms).take (r.query offset).limit)) ∧
      ∀ k, (recallRoute C s r offset).2 k =
        if k ∈ ((arranged C (r.query offset) ms).take (r.query offset).limit).map Match.patternKey
        then (s.load k).map (reusedDoc C.numbers C.now) else s.load k := by
  have hrecall := recall_of_found h
  have hnodup := (recall_ordered hrecall).2.1
  have hpatterns : ∀ key ∈ ((arranged C (r.query offset) ms).take
      (r.query offset).limit).map Match.patternKey,
      ∃ data p, s.load key = some data ∧ validate C.numbers C.now data = some p := by
    intro key hkey
    obtain ⟨m, hm, rfl⟩ := List.mem_map.mp hkey
    have hstored := arranged_stored (found_stored h) m (List.mem_of_mem_take hm)
    obtain ⟨data, hdata, hp⟩ := Option.map_eq_some_iff.mp hstored
    exact ⟨data, m.pattern, hdata, hp⟩
  obtain ⟨hok, hafter⟩ := markAll_spec hnodup hpatterns
  have hmarking : recallMarking C s (r.query offset) =
      (.ok ((arranged C (r.query offset) ms).take (r.query offset).limit),
        (markAll C.numbers C.now (((arranged C (r.query offset) ms).take
          (r.query offset).limit).map Match.patternKey) s.load).2) := by
    rw [recallMarking, hrecall]
    dsimp only
    rw [← Prod.mk.eta (p := markAll C.numbers C.now _ s.load), hok]
  rw [recallRoute, hmarking]
  exact ⟨rfl, hafter⟩

theorem recallRoute_of_error {e : RecallError} (h : found C s (r.query offset) = .error e) :
    recallRoute C s r offset = (.error e, s.load) := by
  rw [recallRoute, recallMarking, RecallService.recall, h]
  rfl

variable (C r offset ms) in
theorem page_eq_iff : (pageOf r offset
      ((arranged C (r.query offset) ms).take (r.query offset).limit)).found =
        (arranged C (r.query offset) ms).take (r.query offset).limit ↔
      ms = [] ∨ PageHoldsAll C r offset ms := by
  have hlimit := r.limit_bounds.1
  have hquery : (r.query offset).limit = (offset + r.limit) * 4 := rfl
  have hcount := length_arranged_query C r offset ms
  have hnil : (arranged C (r.query offset) ms).take (r.query offset).limit = [] ↔ ms = [] := by
    rw [← List.length_eq_zero_iff, List.length_take, hcount, ← keptCount_eq_zero (C := C) (r := r),
      hquery]
    omega
  rw [pageOf]
  dsimp only
  rw [slice_eq_self_iff, hnil]
  apply or_congr_right
  constructor
  · intro h
    obtain ⟨hoffset, hfits, hpass⟩ := h
    rw [List.length_take, hcount, hquery, hoffset] at hfits
    have hall : (arranged C (r.query offset) ms).take (r.query offset).limit =
        arranged C (r.query offset) ms := by
      apply List.take_of_length_le
      rw [hcount, hquery]
      omega
    exact ⟨hoffset, by omega, fun m hm => hpass m (by rw [hall]; exact hm)⟩
  · intro h
    refine ⟨h.first, ?_, fun m hm => h.pass m (List.mem_of_mem_take hm)⟩
    rw [List.length_take, hcount]
    exact (Nat.min_le_right _ _).trans h.fits

end Routes

section Sample

end Sample

end Engramia.Recall
