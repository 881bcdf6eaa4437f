import Engramia.Library.Insertions

/-!
Placeholders between brackets, in place of the matches of expressions that stand between word
boundaries. No expression reaches into a placeholder. What stands at its brackets cannot start or
end a match either: there the boundaries are where they were, or gone.
-/
namespace Engramia.Library.Regex

universe u
variable {α : Type u}

/-- `\b` -/
def boundary (word : α → Bool) : Regex α :=
  look fun prev next => prev.any word != next.any word

/-- An expression between word boundaries, of which the last part is named. -/
def bounded (word : α → Bool) (a b : Regex α) : Regex α :=
  concat [boundary word, a, b, boundary word]

/-- `(?<!…)` -/
def notAfter (p : α → Bool) : Regex α := look fun prev _ => !prev.any p

/-- `(?!…)` -/
def notBefore (p : α → Bool) : Regex α := look fun _ next => !next.any p

/-- An inserted text: letters between brackets that no word contains. -/
structure Placeholder (word : α → Bool) where
  opening : α
  letters : List α
  closing : α
  openingApart : word opening = false
  closingApart : word closing = false

section Definitions
variable {word : α → Bool}

def Placeholder.inside (ph : Placeholder word) : List α :=
  ph.letters ++ [ph.closing]

def Placeholder.text (ph : Placeholder word) : List α :=
  ph.opening :: ph.inside

/-- A match starts at a boundary, ends with a word, and does not fit into the placeholder. -/
structure Framed (ph : Placeholder word) (r : Regex α) : Prop where
  consuming : r.Consuming
  first : ∀ c, ∀ c' ∈ r.ends c, c.prev.any word ≠ c.rest.head?.any word
  last : ∀ c, ∀ c' ∈ r.ends c, c'.prev.any word = true ∧ c'.rest.head?.any word = false
  alike : ∀ next next', next.any word = false → next'.any word = false → r.Alike next next'
  outside : Outside ph.opening ph.letters ph.closing r

end Definitions

section Parts
variable {word : α → Bool} {ph : Placeholder word} {a b : Regex α} {c c' : Cursor α} {x : α}

theorem Placeholder.ne_of_word (ph : Placeholder word) (hx : word x = true) :
    x ≠ ph.opening ∧ x ≠ ph.closing := by
  constructor
  · intro heq
    rw [heq, ph.openingApart] at hx
    cases hx
  · intro heq
    rw [heq, ph.closingApart] at hx
    cases hx

theorem mem_ends_bounded (h : c' ∈ (bounded word a b).ends c) :
    c.prev.any word ≠ c.rest.head?.any word ∧ c'.prev.any word ≠ c'.rest.head?.any word ∧
      ∃ c₁ ∈ a.ends c, c' ∈ b.ends c₁ := by
  obtain ⟨c₀, hfirst, hparts⟩ := mem_ends_seq.mp h
  obtain ⟨hstart, rfl⟩ := mem_ends_look.mp hfirst
  obtain ⟨c₁, ha, hbehind⟩ := mem_ends_seq.mp hparts
  obtain ⟨c₂, hb, hrest⟩ := mem_ends_seq.mp hbehind
  obtain ⟨c₃, hlast, hempty⟩ := mem_ends_seq.mp hrest
  obtain ⟨hend, rfl⟩ := mem_ends_look.mp hlast
  have heq : c' = c₃ := List.mem_singleton.mp hempty
  rw [heq]
  exact ⟨bne_iff_ne.mp hstart, bne_iff_ne.mp hend, c₁, ha, hb⟩

theorem framed_bounded (hconsuming : b.Consuming) (hword : b.TakesOnly fun x => word x = true)
    (halike : ∀ next next', a.Alike next next' ∧ b.Alike next next')
    (houtside : Outside ph.opening ph.letters ph.closing a) : Framed ph (bounded word a b) where
  consuming := by
    intro c c' h
    obtain ⟨_, _, c₁, ha, hb⟩ := mem_ends_bounded h
    have hfirst := WeighsAtLeast.zero (fun _ => 1) a c c₁ ha
    have hsecond := hconsuming c₁ c' hb
    omega
  first := fun c c' h => (mem_ends_bounded h).1
  last := by
    intro c c' h
    obtain ⟨_, hend, c₁, _, hb⟩ := mem_ends_bounded h
    obtain ⟨taken, hrest, hprev, _⟩ := ends_local hb
    obtain ⟨x, hx, hlast⟩ := before_mem (hconsuming.taken_ne_nil hb hrest)
    have hletter : c'.prev.any word = true := by
      rw [hprev, hlast]
      exact hword.ends hb hrest x hx
    rw [hletter] at hend
    exact ⟨hletter, Bool.eq_false_iff.mpr hend.symm⟩
  alike := by
    intro next next' hnext hnext'
    have hboundary : (boundary word).Alike next next' := by
      intro prev
      show (prev.any word != next.any word) = (prev.any word != next'.any word)
      rw [hnext, hnext']
    exact ⟨hboundary, (halike next next').1, (halike next next').2, hboundary, trivial⟩
  outside := by
    have hb : b.TakesOnly fun x => x ≠ ph.opening ∧ x ≠ ph.closing :=
      hword.mono fun x hx => ph.ne_of_word hx
    obtain ⟨w, k, hweight, hlight⟩ := houtside.lighter
    refine ⟨⟨trivial, houtside.takes, hb, trivial, trivial⟩, w, k, ?_, hlight⟩
    intro c c' h
    obtain ⟨_, _, c₁, ha, hb⟩ := mem_ends_bounded h
    have hfirst := hweight c c₁ ha
    have hsecond := WeighsAtLeast.zero w b c₁ c' hb
    omega

theorem framed_guarded (hconsuming : b.Consuming) (hword : b.TakesOnly fun x => word x = true)
    (halike : ∀ next next', b.Alike next next')
    (houtside : Outside ph.opening ph.letters ph.closing b) :
    Framed ph (concat [notAfter word, b, notBefore word]) := by
  have hparts : ∀ c, ∀ c' ∈ (concat [notAfter word, b, notBefore word]).ends c,
      c.prev.any word = false ∧ c'.rest.head?.any word = false ∧ c' ∈ b.ends c := by
    intro c c' h
    obtain ⟨c₀, hfirst, hrest⟩ := mem_ends_seq.mp h
    obtain ⟨hstart, rfl⟩ := mem_ends_look.mp hfirst
    obtain ⟨c₁, hb, hrest⟩ := mem_ends_seq.mp hrest
    obtain ⟨c₂, hlast, hempty⟩ := mem_ends_seq.mp hrest
    obtain ⟨hend, rfl⟩ := mem_ends_look.mp hlast
    rw [List.mem_singleton.mp hempty]
    exact ⟨by simpa using hstart, by simpa using hend, hb⟩
  refine { consuming := ?_, first := ?_, last := ?_, alike := ?_, outside := ?_ }
  · intro c c' h
    exact hconsuming c c' (hparts c c' h).2.2
  · intro c c' h
    obtain ⟨hprev, _, hb⟩ := hparts c c' h
    obtain ⟨taken, hrest, _⟩ := ends_local hb
    cases taken with
    | nil => exact absurd rfl (hconsuming.taken_ne_nil hb hrest)
    | cons x taken =>
        have hx : word x = true := hword.ends hb hrest x List.mem_cons_self
        rw [hprev, hrest, List.cons_append, List.head?_cons, Option.any_some, hx]
        exact Bool.false_ne_true
  · intro c c' h
    obtain ⟨_, hnext, hb⟩ := hparts c c' h
    obtain ⟨taken, hrest, hprev, _⟩ := ends_local hb
    obtain ⟨x, hx, hlast⟩ := before_mem (hconsuming.taken_ne_nil hb hrest)
    refine ⟨?_, hnext⟩
    rw [hprev, hlast]
    exact hword.ends hb hrest x hx
  · intro next next' hnext hnext'
    refine ⟨fun _ => rfl, halike next next', ?_, trivial⟩
    intro prev
    show (!next.any word) = !next'.any word
    rw [hnext, hnext']
  · obtain ⟨w, k, hweight, hlight⟩ := houtside.lighter
    exact ⟨⟨trivial, houtside.takes, trivial, trivial⟩, w, k,
      fun c c' h => hweight c c' (hparts c c' h).2.2, hlight⟩

end Parts

section Frames
variable {word : α → Bool} {ph : Placeholder word} {q r : Regex α} {prev : Option α} {x : α}
  {letters rest text : List α}

theorem Framed.clean_placeholder (hr : Framed ph r) (h : r.CleanFrom (some ph.closing) rest) :
    r.CleanFrom prev (ph.text ++ rest) :=
  hr.outside.cleanFrom h

theorem Framed.matches_before (hq : Framed ph q) (hr : Framed ph r)
    (h : r.Matches ⟨prev, subFrom q ph.text 0 prev text⟩) : r.Matches ⟨prev, text⟩ := by
  obtain ⟨c', hc'⟩ := matches_iff.mp h
  apply matches_of_subFrom hc'
  · intro taken hsplit hmem
    exact (hr.outside.takes.ends hc' hsplit _ hmem).1 rfl
  · intro rest _ hfound
    obtain ⟨c₁, hc₁⟩ := matches_iff.mp hfound
    have hfirst := hq.first _ c₁ hc₁
    have hlast := (hr.last _ c' hc').1
    refine hr.alike _ _ ph.openingApart ?_
    change c'.prev.any word ≠ rest.head?.any word at hfirst
    rw [hlast] at hfirst
    exact Bool.eq_false_iff.mpr hfirst.symm

theorem Framed.not_matches_behind (hr : Framed ph r) (htext : text.head?.any word = false) :
    ¬ r.Matches ⟨some ph.closing, subFrom q ph.text 0 prev text⟩ := by
  intro h
  obtain ⟨c', hc'⟩ := matches_iff.mp h
  have hfirst := hr.first _ c' hc'
  have hhead : (subFrom q ph.text 0 prev text).head?.any word = false := by
    cases head?_subFrom q ph.opening ph.inside prev text with
    | inl hsame => exact (congrArg (Option.any word) hsame).trans htext
    | inr hfound => exact (congrArg (Option.any word) hfound.1).trans ph.openingApart
  exact hfirst (ph.closingApart.trans hhead.symm)

/-- A substitution by a placeholder leaves no match of its expression, and brings no match of
another one. -/
theorem Framed.cleanFrom_sub (hq : Framed ph q) (hr : Framed ph r) (prev : Option α)
    (text : List α) : (r = q ∨ r.CleanFrom prev text) →
      r.CleanFrom prev (subFrom q ph.text 0 prev text) := by
  induction prev, text using scan_induction hq.consuming with
  | done prev => exact fun _ => cleanFrom_nil hr.consuming
  | kept prev x rest hkept ih =>
      intro h
      have hhere : ¬ r.Matches ⟨prev, x :: rest⟩ := by
        cases h with
        | inl heq => exact heq ▸ hkept
        | inr hclean => exact hclean.here
      have hrest := ih (h.imp_right CleanFrom.tail)
      rw [subFrom_kept hkept]
      refine .cons ?_ hrest
      rw [← subFrom_kept hkept]
      exact fun hmatch => hhere (hq.matches_before hr hmatch)
  | found prev taken rest hne hends hlen ih =>
      intro h
      have hrest := ih (h.imp_right CleanFrom.behind)
      rw [subFrom_found hlen hne]
      have hnext := (hq.last _ _ hends).2
      exact hr.clean_placeholder (hrest.change hr.consuming (hr.not_matches_behind hnext))

theorem Framed.clean_sub_self (hq : Framed ph q) (text : List α) : q.Clean (q.sub ph.text text) :=
  hq.cleanFrom_sub hq none text (.inl rfl)

theorem Framed.clean_sub (hq : Framed ph q) (hr : Framed ph r) (h : r.Clean text) :
    r.Clean (q.sub ph.text text) :=
  hq.cleanFrom_sub hr none text (.inr h)

end Frames

end Engramia.Library.Regex
