import Engramia.Recall.Pages

/-!
Runs of pages over a store that does not change. When the pool of each page settles it, the pages
are cut out of all the matches one after another. Without groups a larger pool has all that a
smaller one has, so a match that a page has left behind is never seen again, and every run that
enumerates all the matches has settled pages.
-/
namespace Engramia.Recall
open Engramia.Library Engramia.Storage Engramia.Patterns

section Runs
variable {C : RecallContext} {s : RecallStore}
  {ranking : Except RecallError (List (Text × ℚ))} {r : RecallRequest} {offset : ℕ}

/-- A client that starts at an offset gets one run of pages. -/
theorem Pages.unique {pages pages' : List (ℕ × RecallResponse)} (h : Pages C s r offset pages)
    (h' : Pages C s r offset pages') : pages = pages' := by
  induction h generalizing pages' with
  | last _ answered more =>
      cases h' with
      | last _ answered' _ =>
          rw [answered] at answered'
          cases answered'
          rfl
      | next _ answered' more' _ =>
          rw [answered] at answered'
          cases answered'
          rw [more] at more'
          cases more'
  | next _ answered more _ ih =>
      cases h' with
      | last _ answered' more' =>
          rw [answered] at answered'
          cases answered'
          rw [more] at more'
          cases more'
      | next _ answered' _ rest' =>
          rw [answered] at answered'
          cases answered'
          rw [ih rest']

/-- What a settled run yields from an offset on. -/
structure YieldsFrom (C : RecallContext) (s : RecallStore) (r : RecallRequest)
    (all : List Match) (offset : ℕ) (pages : List (ℕ × RecallResponse)) : Prop where
  run : Pages C s r offset pages
  found : (pages.flatMap fun x => x.2.found) = all.drop offset
  more : ∀ x ∈ pages, x.2.hasMore = true ↔ HasFurther C s r x

theorem yields_of_settled (h : AnswersFrom s ranking) (hrun : SettledRun C s ranking r)
    (left : ℕ) (hleft : (allMatches C s ranking r).length ≤ offset + left)
    (hdvd : r.limit ∣ offset) (hvisit : offset = 0 ∨ offset < (allMatches C s ranking r).length) :
    ∃ pages, YieldsFrom C s r (allMatches C s ranking r) offset pages := by
  induction left using Nat.strong_induction_on generalizing offset with
  | _ left ih =>
      obtain ⟨haccepted, hsettled⟩ := hrun.pages offset hdvd hvisit
      obtain ⟨page, hpage, hfound, hmore⟩ := recallPage_settled h hsettled
      have hpos := r.limit_bounds.1
      by_cases hlt : offset + r.limit < (allMatches C s ranking r).length
      · have hlength : page.found.length = r.limit := by
          rw [hfound, List.length_take, List.length_drop]
          omega
        have hdvd' : r.limit ∣ offset + r.limit := Nat.dvd_add hdvd (dvd_refl _)
        obtain ⟨_, hsettled'⟩ := hrun.pages _ hdvd' (Or.inr hlt)
        obtain ⟨further, hfurther, hfound', _⟩ := recallPage_settled h hsettled'
        obtain ⟨pages, hyields⟩ := ih (left - r.limit) (by omega) (by omega) hdvd' (Or.inr hlt)
        rw [← hlength] at hyields
        refine ⟨(offset, page) :: pages, .next haccepted hpage (hmore.mpr hlt) hyields.run, ?_, ?_⟩
        · rw [List.flatMap_cons, hyields.found, hlength, hfound, ← List.drop_drop,
            List.take_append_drop]
        · intro x hx
          cases List.mem_cons.mp hx with
          | inr hx => exact hyields.more x hx
          | inl heq =>
              subst heq
              apply iff_of_true (hmore.mpr hlt)
              refine ⟨further, by rw [hlength]; exact hfurther, ?_⟩
              rw [hfound']
              intro hnil
              have hzero := congrArg List.length hnil
              rw [List.length_take, List.length_drop, List.length_nil] at hzero
              omega
      · have hdone : page.hasMore = false := by
          rw [← Bool.not_eq_true, hmore]
          exact hlt
        have hrest : page.found = (allMatches C s ranking r).drop offset := by
          rw [hfound, List.take_of_length_le]
          rw [List.length_drop]
          omega
        have hend : offset + page.found.length = (allMatches C s ranking r).length := by
          rw [hrest, List.length_drop]
          omega
        refine ⟨[(offset, page)], .last haccepted hpage hdone, ?_, ?_⟩
        · rw [List.flatMap_cons, List.flatMap_nil, List.append_nil, hrest]
        · intro x hx
          rw [List.mem_singleton.mp hx]
          apply iff_of_false
          · rw [hdone]
            exact Bool.false_ne_true
          · intro hfurther
            obtain ⟨further, hpage', hne⟩ := hfurther
            simp only [hend] at hpage'
            exact hne (past_all_empty h hrun.after le_rfl hpage')

theorem enumerates_of_settledRun (h : AnswersFrom s ranking) (hrun : SettledRun C s ranking r) :
    EnumeratesAll C s ranking r := by
  obtain ⟨pages, hyields⟩ := yields_of_settled h hrun (allMatches C s ranking r).length
    (Nat.zero_add _).ge (dvd_zero _) (Or.inl rfl)
  have hunique : ∀ pages', Pages C s r 0 pages' → pages' = pages :=
    fun _ h' => Pages.unique h' hyields.run
  refine ⟨⟨pages, hyields.run⟩, ?_, allMatches_nodup h, ?_⟩
  · intro pages' h'
    rw [hunique pages' h', hyields.found, List.drop_zero]
  · intro pages' h'
    rw [hunique pages' h']
    exact hyields.more

/-- The rest of a list without repetitions has nothing of its beginning. -/
theorem not_mem_drop_of_mem_take {α : Type} {l : List α} (h : l.Nodup) {a : α} {n : ℕ}
    (ha : a ∈ l.take n) : a ∉ l.drop n := by
  rw [← List.take_append_drop n l] at h
  exact fun hdrop => (List.nodup_append.mp h).2.2 a ha a hdrop rfl

theorem query_limit_le {offset' : ℕ} (hle : offset ≤ offset') :
    (r.query offset).limit ≤ (r.query offset').limit := by
  change (offset + r.limit) * 4 ≤ (offset' + r.limit) * 4
  omega

section Ungrouped
variable (hgroups : r.deduplicate = false)
include hgroups

theorem fetched_ungrouped (offset : ℕ) :
    (r.query offset).limit * (r.query offset).fetchMultiplier = (r.query offset).limit := by
  have hone : (r.query offset).fetchMultiplier = 1 := by
    simp [RecallQuery.fetchMultiplier, RecallRequest.query, hgroups]
  rw [hone, Nat.mul_one]

theorem length_pool_ungrouped : (pool C s ranking r offset).length ≤ (r.query offset).limit := by
  cases ranking with
  | error e =>
      simp only [pool, fetched_ungrouped hgroups]
      exact List.length_take_le _ _
  | ok results =>
      simp only [pool, fetched_ungrouped hgroups]
      split
      · rw [List.length_map]
        exact List.length_take_le _ _
      · exact (List.length_filterMap_le _ _).trans (List.length_take_le _ _)

theorem mem_pool_ungrouped {results : List (Text × ℚ)} {m : Match} :
    m ∈ pool C s (.ok results) r offset ↔ ∃ x ∈ results.take (r.query offset).limit,
      (if r.evalWeighted then (weighted C s r.task x).map Prod.snd else plain C s x) = some m := by
  have hlength : (sortedDesc Prod.fst ((results.take (r.query offset).limit).filterMap
      (weighted C s r.task))).length ≤ (r.query offset).limit := by
    rw [length_sortedDesc]
    exact (List.length_filterMap_le _ _).trans (List.length_take_le _ _)
  unfold pool
  simp only [fetched_ungrouped hgroups, List.take_of_length_le hlength]
  split
  · simp only [List.mem_map, mem_sortedDesc, List.mem_filterMap, Option.map_eq_some_iff]
    constructor
    · intro hm
      obtain ⟨y, ⟨x, hx, hy⟩, hm⟩ := hm
      exact ⟨x, hx, y, hy, hm⟩
    · intro hm
      obtain ⟨x, hx, y, hy, hm⟩ := hm
      exact ⟨y, ⟨x, hx, hy⟩, hm⟩
  · exact List.mem_filterMap

theorem mem_pool_of_le {offset' : ℕ} (hle : offset ≤ offset') {m : Match}
    (hm : m ∈ pool C s ranking r offset) : m ∈ pool C s ranking r offset' := by
  cases ranking with
  | error e =>
      simp only [pool, fetched_ungrouped hgroups] at hm ⊢
      exact List.take_subset_take_left _ (query_limit_le hle) hm
  | ok results =>
      obtain ⟨x, hx, heq⟩ := (mem_pool_ungrouped hgroups).mp hm
      exact (mem_pool_ungrouped hgroups).mpr
        ⟨x, List.take_subset_take_left _ (query_limit_le hle) hx, heq⟩

theorem length_arranged_ungrouped (ms : List Match) :
    (arranged C (r.query 0) ms).length = ms.length := by
  have hnot : (r.query 0).deduplicate = false := hgroups
  unfold arranged applyRecencyWeight
  simp only [hnot, Bool.false_eq_true, if_false]
  split
  · split
    · rfl
    · rw [length_sortedDesc, List.length_map]
  · rfl

theorem mem_considered (h : AnswersFrom s ranking) {m : Match} :
    m ∈ considered C s ranking r offset ↔ m ∈ complete C s ranking r ∧
      m.patternKey ∈ (pool C s ranking r offset).map Match.patternKey := by
  have hpart : arranged C (r.query 0) (pool C s ranking r offset) =
      (complete C s ranking r).filter fun m =>
        m.patternKey ∈ (pool C s ranking r offset).map Match.patternKey :=
    arranged_part (pool_sublist h) (candidates_ordered h).distinct fun htrue =>
      absurd (hgroups.symm.trans htrue) Bool.false_ne_true
  have hlength : (pool C s ranking r offset).length ≤ (r.query offset).limit :=
    length_pool_ungrouped hgroups
  rw [considered, List.take_of_length_le, List.mem_filter, decide_eq_true_eq]
  rw [← hpart, length_arranged_ungrouped hgroups]
  exact hlength

theorem mem_considered_of_le (h : AnswersFrom s ranking) {offset' : ℕ} (hle : offset ≤ offset')
    {m : Match} (hm : m ∈ considered C s ranking r offset) :
    m ∈ considered C s ranking r offset' := by
  obtain ⟨hcomplete, hkey⟩ := (mem_considered hgroups h).mp hm
  obtain ⟨x, hx, heq⟩ := List.mem_map.mp hkey
  exact (mem_considered hgroups h).mpr
    ⟨hcomplete, List.mem_map.mpr ⟨x, mem_pool_of_le hgroups hle hx, heq⟩⟩

theorem pool_apart_ungrouped : PoolApart C s ranking r offset := by
  intro htrue
  rw [hgroups] at htrue
  cases htrue

theorem recallPage_ungrouped (h : AnswersFrom s ranking) {page : RecallResponse}
    (hpage : recallPage C s r offset = .ok page) :
    Readable C s ranking r offset ∧
      page.found = (((considered C s ranking r offset).filter (passes r)).drop offset).take
        r.limit ∧
      (page.hasMore = true ↔
        offset + r.limit < ((considered C s ranking r offset).filter (passes r)).length) := by
  cases hfound : found C s (r.query offset) with
  | error e =>
      unfold recallPage RecallService.recall at hpage
      rw [hfound] at hpage
      cases hpage
  | ok ms =>
      have hreadable := readable_of_found h hfound
      unfold recallPage at hpage
      rw [recall_considered h hreadable (pool_apart_ungrouped hgroups)] at hpage
      cases hpage
      exact ⟨hreadable, rfl, decide_eq_true_iff⟩

/-- What a page has left behind is not seen again. -/
theorem not_mem_of_left_behind (h : AnswersFrom s ranking) {m : Match}
    {pages : List (ℕ × RecallResponse)} (hpages : Pages C s r offset pages)
    (hm : m ∈ (allMatches C s ranking r).take offset) :
    m ∉ pages.flatMap fun x => x.2.found := by
  have hpage : ∀ {o : ℕ} {page : RecallResponse}, recallPage C s r o = .ok page →
      m ∈ (allMatches C s ranking r).take o → m ∉ page.found := by
    intro o page hpage hm hmem
    rw [(recallPage_ungrouped hgroups h hpage).2.1] at hmem
    have hdrop := (filtered_sublist.drop o).subset (List.mem_of_mem_take hmem)
    exact not_mem_drop_of_mem_take (List.Nodup.of_map _ (allMatches_nodup h)) hm hdrop
  induction hpages with
  | last _ answered _ =>
      rw [List.flatMap_cons, List.flatMap_nil, List.append_nil]
      exact hpage answered hm
  | next _ answered _ _ ih =>
      rw [List.flatMap_cons, List.mem_append]
      intro hmem
      cases hmem with
      | inl hmem => exact hpage answered hm hmem
      | inr hmem => exact ih (List.take_subset_take_left _ (Nat.le_add_right _ _) hm) hmem

/-- A page is settled when all that is to come is in its own part or behind it. -/
theorem settled_of_page (h : AnswersFrom s ranking) {page : RecallResponse}
    (hpage : recallPage C s r offset = .ok page)
    (hbegin : ∀ m ∈ (allMatches C s ranking r).take offset, m ∈ considered C s ranking r offset)
    (hpart : ∀ m ∈ (allMatches C s ranking r).drop offset,
      m ∈ (allMatches C s ranking r).take (offset + r.limit) → m ∈ page.found)
    (hmore : offset + r.limit < (allMatches C s ranking r).length → page.hasMore = true) :
    Settled C s ranking r offset := by
  obtain ⟨hreadable, hfound, hiff⟩ := recallPage_ungrouped hgroups h hpage
  refine ⟨hreadable, pool_apart_ungrouped hgroups, ?_, fun hlt => hiff.mp (hmore hlt)⟩
  intro m hm
  have hmem := List.mem_of_mem_take hm
  rw [← List.take_append_drop offset (allMatches C s ranking r), List.mem_append] at hmem
  cases hmem with
  | inl htake => exact hbegin m htake
  | inr hdrop =>
      have hin := hpart m hdrop hm
      rw [hfound] at hin
      exact List.mem_of_mem_filter (List.mem_of_mem_drop (List.mem_of_mem_take hin))

theorem settled_of_pages (h : AnswersFrom s ranking) {pages : List (ℕ × RecallResponse)}
    (hpages : Pages C s r offset pages) (hdvd : r.limit ∣ offset)
    (hbegin : ∀ m ∈ (allMatches C s ranking r).take offset, m ∈ considered C s ranking r offset)
    (hall : ∀ m ∈ (allMatches C s ranking r).drop offset, m ∈ pages.flatMap fun x => x.2.found)
    {offset' : ℕ} (hle : offset ≤ offset') (hdvd' : r.limit ∣ offset')
    (hvisit : offset' = offset ∨ offset' < (allMatches C s ranking r).length) :
    offset' ≤ maxOffset ∧ Settled C s ranking r offset' := by
  have hnodup : (allMatches C s ranking r).Nodup := List.Nodup.of_map _ (allMatches_nodup h)
  have hstep : ∀ {o : ℕ}, r.limit ∣ o → o ≤ offset' → offset' < o + r.limit → offset' = o := by
    intro o ho hle hlt
    have hzero := Nat.eq_zero_of_dvd_of_lt (Nat.dvd_sub hdvd' ho) (by omega)
    omega
  induction hpages with
  | @last o page accepted answered more =>
      have hin : ∀ m ∈ (allMatches C s ranking r).drop o, m ∈ page.found := by
        intro m hm
        have hmem := hall m hm
        rw [List.flatMap_cons, List.flatMap_nil, List.append_nil] at hmem
        exact hmem
      have hshort : (allMatches C s ranking r).length ≤ o + r.limit := by
        have hlen := (List.subperm_of_subset (hnodup.sublist (List.drop_sublist _ _)) hin).length_le
        rw [(recallPage_ungrouped hgroups h answered).2.1, List.length_drop] at hlen
        have hlimit := List.length_take_le r.limit
          (((considered C s ranking r o).filter (passes r)).drop o)
        omega
      have heq : offset' = o := by
        cases hvisit with
        | inl heq => exact heq
        | inr hlt => exact hstep hdvd hle (by omega)
      subst heq
      exact ⟨accepted, settled_of_page hgroups h answered hbegin (fun m hm _ => hin m hm)
        fun hlt => absurd hlt hshort.not_gt⟩
  | @next o page pages accepted answered more rest ih =>
      obtain ⟨_, hfound, hiff⟩ := recallPage_ungrouped hgroups h answered
      have hlength : page.found.length = r.limit := by
        have hlt := hiff.mp more
        rw [hfound, List.length_take, List.length_drop]
        omega
      have hin : ∀ m ∈ (allMatches C s ranking r).drop o, m ∈ page.found ∨
          m ∈ pages.flatMap fun x => x.2.found := by
        intro m hm
        have hmem := hall m hm
        rw [List.flatMap_cons, List.mem_append] at hmem
        exact hmem
      have hsettled : Settled C s ranking r o := by
        apply settled_of_page hgroups h answered hbegin _ fun _ => more
        intro m hdrop htake
        cases hin m hdrop with
        | inl hmem => exact hmem
        | inr hmem =>
            exact absurd hmem (not_mem_of_left_behind hgroups h rest (hlength.symm ▸ htake))
      by_cases hthis : offset' = o
      · subst hthis
        exact ⟨accepted, hsettled⟩
      · have hnext : o + r.limit ≤ offset' := by
          by_contra hlt
          exact hthis (hstep hdvd hle (by omega))
        rw [hlength] at ih
        apply ih (Nat.dvd_add hdvd (dvd_refl _)) _ _ hnext
          (hvisit.imp_left fun heq => absurd heq hthis)
        · intro m hm
          exact mem_considered_of_le hgroups h (Nat.le_add_right _ _) (hsettled.begins m hm)
        · intro m hm
          have hdrop : m ∈ (allMatches C s ranking r).drop o := by
            rw [← List.drop_drop] at hm
            exact List.mem_of_mem_drop hm
          cases hin m hdrop with
          | inr hmem => exact hmem
          | inl hmem =>
              rw [hfound, page_slice, take_filtered h hsettled] at hmem
              exact absurd hm (not_mem_drop_of_mem_take hnodup (List.mem_of_mem_drop hmem))

/-- Without groups only settled pages enumerate all the matches. -/
theorem settledRun_of_enumerates (h : AnswersFrom s ranking)
    (henumerates : EnumeratesAll C s ranking r) : SettledRun C s ranking r := by
  obtain ⟨pages, hpages⟩ := henumerates.ends
  refine ⟨?_, pool_apart_ungrouped hgroups⟩
  intro offset hdvd hvisit
  apply settled_of_pages hgroups h hpages (dvd_zero _) _ _ (Nat.zero_le _) hdvd hvisit
  · intro m hm
    exact absurd hm List.not_mem_nil
  · intro m hm
    exact (henumerates.all pages hpages).mem_iff.mpr hm

end Ungrouped

end Runs

section Sample

def publicRecord (task : String) : Json Text :=
  .obj [(taskField, .str task.toList),
    (designField, .obj [(classificationLabel, .str "public".toList)])]

def buriedRanking : List (Text × ℚ) :=
  [("a".toList, 1), ("b".toList, 1), ("c".toList, 1), ("d".toList, 1), ("e".toList, 1)]

/-- Four patterns without a label before a public one. -/
def buriedStore : RecallStore :=
  rankedStore [("a".toList, taskRecord "sort a list"), ("b".toList, taskRecord "sort a list"),
      ("c".toList, taskRecord "sort a list"), ("d".toList, taskRecord "sort a list"),
      ("e".toList, publicRecord "sort a list")]
    buriedRanking (by decide) (by decide) (by norm_num [Ranked, buriedRanking])

/-- A request for pages of some length, without groups. -/
def labelled (limit : ℕ) (classification : Option Text) (h : 1 ≤ limit ∧ limit ≤ 50) :
    RecallRequest where
  task := "sort a list".toList
  limit := limit
  deduplicate := false
  evalWeighted := false
  recencyWeight := 0
  recencyHalfLifeDays := 30
  classification := classification
  source := none
  minScore := none
  limit_bounds := h

theorem buried_answers : AnswersFrom buriedStore (.ok buriedRanking) := fun _ => rfl

theorem buried_settled (offset : ℕ) : Settled plainContext buriedStore (.ok buriedRanking)
    (labelled 2 none (by decide)) offset := by
  have hlength : buriedRanking.length ≤ (offset + 2) * 4 * 1 := by
    rw [show buriedRanking.length = 5 from rfl]
    omega
  have htake : buriedRanking.take ((offset + 2) * 4 * 1) = buriedRanking :=
    List.take_of_length_le hlength
  apply settled_of_pool buried_answers
  · have hok : ∃ ms, plainMatches plainContext buriedStore buriedRanking = .ok ms := ⟨_, rfl⟩
    obtain ⟨ms, hms⟩ := hok
    cases plainMatches_spec (C := plainContext) (s := buriedStore) buriedRanking with
    | inl hraises =>
        rw [hraises.2] at hms
        cases hms
    | inr hreads =>
        refine Or.inr ?_
        intro x hx
        exact hreads.1 x (List.mem_of_mem_take hx)
  · exact congrArg (List.filterMap (plain plainContext buriedStore)) htake
  · exact hlength.trans (Nat.mul_one _).le

end Sample

end Engramia.Recall
