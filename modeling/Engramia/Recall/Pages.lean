import Engramia.Recall.Limit
import Engramia.Recall.Parts

/-!
The pages of a recall. Each page recalls four times as many matches as it ends at, filters them
and cuts its own part out, so it sees no further than its pool. Over a store that does not
change, a client asks for the page after the last one for as long as it is told that there are
more.

A pool settles a page when recalling from all the candidates would have given the page nothing
else: what comes up to the end of the page is in the pool, and when there is more, the pool has
more as well. All the pages of a run see one clock.
-/
namespace Engramia.Recall
open Engramia.Library Engramia.Storage Engramia.Patterns

attribute [local instance] text_lawfulBEq

/-- The body of a request for a page, apart from its offset. -/
structure RecallRequest where
  task : Text
  limit : ℕ
  deduplicate : Bool
  evalWeighted : Bool
  recencyWeight : ℚ
  recencyHalfLifeDays : ℚ
  classification : Option Text
  source : Option Text
  minScore : Option ℚ
  limit_bounds : 1 ≤ limit ∧ limit ≤ 50

def maxOffset : ℕ := 10000

structure RecallResponse where
  found : List Match
  hasMore : Bool
  nextOffset : Option ℕ

/-- What recall is called with for a page at an offset. -/
def RecallRequest.query (r : RecallRequest) (offset : ℕ) : RecallQuery where
  task := r.task
  limit := (offset + r.limit) * 4
  deduplicate := r.deduplicate
  evalWeighted := r.evalWeighted
  recencyWeight := r.recencyWeight
  recencyHalfLifeDays := r.recencyHalfLifeDays

/-- A label of the design is the one that is asked for; the empty text asks for none. -/
def labelPasses (asked : Option Text) (label : Text) (m : Match) : Bool :=
  (asked.filter fun text => !text.isEmpty).all fun text =>
    (m.pattern.design.lookup label).bind Json.text? = some text

/-- The filters of a request. -/
def passes (r : RecallRequest) (m : Match) : Bool :=
  labelPasses r.classification classificationLabel m && labelPasses r.source sourceLabel m &&
    r.minScore.all fun score => score ≤ m.pattern.successScore

section Pages
variable (C : RecallContext) (s : RecallStore) (r : RecallRequest)

/-- The handler of `POST /recall`. -/
def recallPage (offset : ℕ) : Except RecallError RecallResponse := do
  let filtered := (← RecallService.recall C s (r.query offset)).filter (passes r)
  let hasMore := offset + r.limit < filtered.length
  pure {
    found := (filtered.drop offset).take r.limit
    hasMore := hasMore
    nextOffset := if hasMore then some (offset + r.limit) else none }

/-- The pages that a client gets from an offset on, with their offsets: it advances by what a
page returns, for as long as there is more. -/
inductive Pages : ℕ → List (ℕ × RecallResponse) → Prop where
  | last {offset : ℕ} {page : RecallResponse} (accepted : offset ≤ maxOffset)
      (answered : recallPage C s r offset = .ok page) (more : page.hasMore = false) :
      Pages offset [(offset, page)]
  | next {offset : ℕ} {page : RecallResponse} {pages : List (ℕ × RecallResponse)}
      (accepted : offset ≤ maxOffset) (answered : recallPage C s r offset = .ok page)
      (more : page.hasMore = true) (rest : Pages (offset + page.found.length) pages) :
      Pages offset ((offset, page) :: pages)

/-- A further page after this one would not be empty. -/
def HasFurther (x : ℕ × RecallResponse) : Prop :=
  ∃ page, recallPage C s r (x.1 + x.2.found.length) = .ok page ∧ page.found ≠ []

end Pages

section Complete
variable (C : RecallContext) (s : RecallStore) (ranking : Except RecallError (List (Text × ℚ)))
  (r : RecallRequest)

/-- A store that does not change answers all searches from one ranking. -/
def AnswersFrom : Prop := ∀ n, s.search n = ranking.map (·.take n)

/-- The matches of all the candidates, in the order of the path that finds them. -/
def candidates : List Match :=
  match ranking with
  | .error _ => sortedDesc Match.similarity (s.keys.filterMap (keywordMatch C s r.task))
  | .ok results =>
      if r.evalWeighted then
        (sortedDesc Prod.fst (results.filterMap (weighted C s r.task))).map Prod.snd
      else results.filterMap (plain C s)

/-- The candidates that the page at an offset sees. -/
def pool (offset : ℕ) : List Match :=
  let limit := (r.query offset).limit
  let fetched := limit * (r.query offset).fetchMultiplier
  match ranking with
  | .error _ => (candidates C s ranking r).take fetched
  | .ok results =>
      if r.evalWeighted then
        ((sortedDesc Prod.fst ((results.take fetched).filterMap (weighted C s r.task))).take
          limit).map Prod.snd
      else (results.take fetched).filterMap (plain C s)

/-- All the matches, without a limit and before the filters. -/
def complete : List Match := arranged C (r.query 0) (candidates C s ranking r)

/-- Every match that satisfies the filters. -/
def allMatches : List Match := (complete C s ranking r).filter (passes r)

/-- The matches that the page at an offset filters: those of its pool, up to its limit. -/
def considered (offset : ℕ) : List Match :=
  ((complete C s ranking r).filter fun m =>
    m.patternKey ∈ (pool C s ranking r offset).map Match.patternKey).take (r.query offset).limit

/-- The search answers or falls back, and the plain path reads what it fetches. -/
def Readable (offset : ℕ) : Prop :=
  match ranking with
  | .error e => e = .provider
  | .ok results => r.evalWeighted = true ∨
      ∀ x ∈ results.take ((r.query offset).limit * (r.query offset).fetchMultiplier),
        ¬ PlainRaises C s x

/-- No candidate outside the pool has the task of one inside, as far as tasks are grouped. -/
def PoolApart (offset : ℕ) : Prop :=
  r.deduplicate = true → ∀ x ∈ candidates C s ranking r,
    x.patternKey ∉ (pool C s ranking r offset).map Match.patternKey →
      ∀ y ∈ pool C s ranking r offset, ¬ SameTask C.text x.pattern.task y.pattern.task

/-- The pool of a page settles it. -/
structure Settled (offset : ℕ) : Prop where
  readable : Readable C s ranking r offset
  apart : PoolApart C s ranking r offset
  begins : ∀ m ∈ (allMatches C s ranking r).take (offset + r.limit),
    m ∈ considered C s ranking r offset
  more : offset + r.limit < (allMatches C s ranking r).length →
    offset + r.limit < ((considered C s ranking r offset).filter (passes r)).length

/-- All the pages up to the last match are accepted and settled. -/
structure SettledRun : Prop where
  pages : ∀ offset, r.limit ∣ offset → offset = 0 ∨ offset < (allMatches C s ranking r).length →
    offset ≤ maxOffset ∧ Settled C s ranking r offset
  after : PoolApart C s ranking r (allMatches C s ranking r).length

/-- The client gets to an end, with every match that satisfies the filters once, and each page
says whether there is a further one. -/
structure EnumeratesAll : Prop where
  ends : ∃ pages, Pages C s r 0 pages
  all : ∀ pages, Pages C s r 0 pages →
    (pages.flatMap fun x => x.2.found).Perm (allMatches C s ranking r)
  once : ((allMatches C s ranking r).map Match.patternKey).Nodup
  more : ∀ pages, Pages C s r 0 pages → ∀ x ∈ pages, x.2.hasMore = true ↔ HasFurther C s r x

end Complete

section Pools
variable {C : RecallContext} {s : RecallStore}
  {ranking : Except RecallError (List (Text × ℚ))} {r : RecallRequest} {offset : ℕ}

theorem search_length {results : List (Text × ℚ)} (h : AnswersFrom s (.ok results)) :
    s.search results.length = .ok results :=
  (h _).trans (congrArg Except.ok List.take_length)

theorem candidates_ordered (h : AnswersFrom s ranking) : Ordered (candidates C s ranking r) := by
  cases ranking with
  | error e => exact keyword_ordered C s r.task
  | ok results =>
      simp only [candidates]
      split
      · exact weighted_ordered (s.search_nodup _ _ (search_length h))
      · exact plain_ordered (s.search_nodup _ _ (search_length h))
          (s.search_ranked _ _ (search_length h))

theorem pool_sublist (h : AnswersFrom s ranking) :
    (pool C s ranking r offset).Sublist (candidates C s ranking r) := by
  cases ranking with
  | error e => exact List.take_sublist _ _
  | ok results =>
      simp only [pool, candidates]
      split
      · apply List.Sublist.map
        apply (List.take_sublist _ _).trans
        apply sortedDesc_sublist fun y : ℚ × Match => y.2.patternKey
        · apply List.Nodup.sublist _ (s.search_nodup _ _ (search_length h))
          exact map_filterMap_sublist (fun _ _ h => (weighted_eq_some h).2.1) results
        · exact (List.take_sublist _ _).filterMap _
      · exact (List.take_sublist _ _).filterMap _

theorem searched_query (h : AnswersFrom s ranking) :
    searched C s (r.query offset) (r.query offset).fetchMultiplier =
      match ranking with
      | .error e => .error e
      | .ok results =>
          if r.evalWeighted then .ok (pool C s (.ok results) r offset)
          else plainMatches C s
            (results.take ((r.query offset).limit * (r.query offset).fetchMultiplier)) := by
  have hmax : max 1 (r.query offset).fetchMultiplier = (r.query offset).fetchMultiplier := by
    unfold RecallQuery.fetchMultiplier dedupFetchMultiplier
    split <;> rfl
  have hpath : (r.query offset).evalWeighted = r.evalWeighted := rfl
  unfold searched find
  rw [hmax, h, hpath]
  cases ranking with
  | error e => cases r.evalWeighted <;> rfl
  | ok results =>
      simp only [pool]
      cases r.evalWeighted <;> rfl

theorem found_pool (h : AnswersFrom s ranking) (hreadable : Readable C s ranking r offset) :
    found C s (r.query offset) = .ok (pool C s ranking r offset) := by
  unfold found
  rw [searched_query h]
  cases ranking with
  | error e =>
      have he : e = .provider := hreadable
      subst he
      rfl
  | ok results =>
      simp only [pool]
      cases hweighted : r.evalWeighted with
      | true => rfl
      | false =>
          cases hreadable with
          | inl htrue => exact absurd htrue (by rw [hweighted]; exact Bool.false_ne_true)
          | inr hreads =>
              cases plainMatches_spec (C := C) (s := s) (results.take
                  ((r.query offset).limit * (r.query offset).fetchMultiplier)) with
              | inl hraises =>
                  obtain ⟨x, hx, hraises⟩ := hraises.1
                  exact absurd hraises (hreads x hx)
              | inr hok =>
                  simp only [Bool.false_eq_true, if_false]
                  rw [hok.2]

theorem readable_of_found (h : AnswersFrom s ranking) {ms : List Match}
    (hfound : found C s (r.query offset) = .ok ms) : Readable C s ranking r offset := by
  unfold found at hfound
  rw [searched_query h] at hfound
  cases ranking with
  | error e =>
      cases e with
      | provider => rfl
      | validation => cases hfound
      | other => cases hfound
  | ok results =>
      cases hweighted : r.evalWeighted with
      | true => exact Or.inl hweighted
      | false =>
          cases plainMatches_spec (C := C) (s := s) (results.take
              ((r.query offset).limit * (r.query offset).fetchMultiplier)) with
          | inl hraises =>
              simp only [hweighted, Bool.false_eq_true, if_false] at hfound
              rw [hraises.2] at hfound
              cases hfound
          | inr hok => exact Or.inr hok.1

theorem recall_considered (h : AnswersFrom s ranking)
    (hreadable : Readable C s ranking r offset) (hapart : PoolApart C s ranking r offset) :
    RecallService.recall C s (r.query offset) = .ok (considered C s ranking r offset) := by
  have hpart : (r.query offset).deduplicate = true →
      Apart C.text (candidates C s ranking r) (pool C s ranking r offset) :=
    fun hgroups => ⟨pool_sublist h, hapart hgroups⟩
  rw [recall_of_found (found_pool h hreadable),
    arranged_part (pool_sublist h) (candidates_ordered h).distinct hpart]
  rfl

theorem complete_ordered (h : AnswersFrom s ranking) : Ordered (complete C s ranking r) :=
  arranged_ordered C (r.query 0) (candidates_ordered h)

theorem allMatches_nodup (h : AnswersFrom s ranking) :
    ((allMatches C s ranking r).map Match.patternKey).Nodup :=
  ((complete_ordered h).sublist List.filter_sublist).distinct

theorem filtered_sublist : ((considered C s ranking r offset).filter (passes r)).Sublist
    (allMatches C s ranking r) :=
  ((List.take_sublist _ _).trans List.filter_sublist).filter _

theorem page_slice (l : List Match) (offset limit : ℕ) :
    (l.drop offset).take limit = (l.take (offset + limit)).drop offset := by
  rw [List.drop_take, Nat.add_sub_cancel_left]

theorem take_filtered (h : AnswersFrom s ranking) (hsettled : Settled C s ranking r offset) :
    ((considered C s ranking r offset).filter (passes r)).take (offset + r.limit) =
      (allMatches C s ranking r).take (offset + r.limit) := by
  apply take_eq_of_sublist (allMatches_nodup h) filtered_sublist
  intro m hm
  exact List.mem_filter.mpr ⟨hsettled.begins m hm,
    (List.mem_filter.mp (List.mem_of_mem_take hm)).2⟩

theorem recallPage_settled (h : AnswersFrom s ranking) (hsettled : Settled C s ranking r offset) :
    ∃ page, recallPage C s r offset = .ok page ∧
      page.found = ((allMatches C s ranking r).drop offset).take r.limit ∧
      (page.hasMore = true ↔ offset + r.limit < (allMatches C s ranking r).length) := by
  have hrecall := recall_considered h hsettled.readable hsettled.apart
  refine ⟨_, by unfold recallPage; rw [hrecall]; rfl, ?_, ?_⟩
  · rw [page_slice, page_slice, take_filtered h hsettled]
  · simp only [decide_eq_true_eq]
    constructor
    · intro hlt
      exact hlt.trans_le filtered_sublist.length_le
    · exact hsettled.more

theorem past_all_empty (h : AnswersFrom s ranking) (hapart : PoolApart C s ranking r offset)
    (hpast : (allMatches C s ranking r).length ≤ offset) {page : RecallResponse}
    (hpage : recallPage C s r offset = .ok page) : page.found = [] := by
  cases hfound : found C s (r.query offset) with
  | error e =>
      unfold recallPage RecallService.recall at hpage
      rw [hfound] at hpage
      cases hpage
  | ok ms =>
      have hrecall := recall_considered h (readable_of_found h hfound) hapart
      have hshort : ((considered C s ranking r offset).filter (passes r)).length ≤ offset :=
        filtered_sublist.length_le.trans hpast
      unfold recallPage at hpage
      rw [hrecall] at hpage
      cases hpage
      simp [List.drop_eq_nil_of_le hshort]

theorem settled_of_pool (h : AnswersFrom s ranking) (hreadable : Readable C s ranking r offset)
    (hpool : pool C s ranking r offset = candidates C s ranking r)
    (hlimit : (complete C s ranking r).length ≤ (r.query offset).limit) :
    Settled C s ranking r offset := by
  have hapart : PoolApart C s ranking r offset := by
    intro _ x hx hout
    exact absurd (List.mem_map_of_mem hx) (hpool ▸ hout)
  have hall : considered C s ranking r offset = complete C s ranking r := by
    have hsub : (pool C s ranking r offset).Sublist (candidates C s ranking r) := pool_sublist h
    have hpart := arranged_part (q := r.query 0) hsub (candidates_ordered h).distinct
      fun hgroups => ⟨hsub, hapart hgroups⟩
    rw [considered, complete, ← hpart, hpool]
    exact List.take_of_length_le hlimit
  constructor
  · exact hreadable
  · exact hapart
  · intro m hm
    rw [hall]
    exact List.mem_of_mem_filter (List.mem_of_mem_take hm)
  · rw [hall]
    exact id

end Pools

end Engramia.Recall
