import Engramia.Library.Regex

/-!
Texts whose characters are marked as inserted or as original. An expression over the characters
reads a marked text through the characters alone, so that the marked text and the plain one are
substituted in step.

A match that neither takes nor touches a marked character was a match before the substitution.
What a match takes is never marked when the inserted text stands between brackets that no match
takes and is lighter than every match, and an expression without conditions does not notice what
it touches.
-/
namespace Engramia.Library

universe u v
variable {α : Type u} {β : Type v}

def Cursor.map (f : β → α) (c : Cursor β) : Cursor α :=
  ⟨c.prev.map f, c.rest.map f⟩

theorem map_before (f : β → α) (prev : Option β) (taken : List β) :
    (before prev taken).map f = before (prev.map f) (taken.map f) := by
  induction taken generalizing prev with
  | nil => rfl
  | cons x taken ih => exact ih (some x)

namespace Regex

/-- The expression that reads characters through a function. -/
def comap (f : β → α) : Regex α → Regex β
  | empty => empty
  | char p => char fun x => p (f x)
  | many p least => many (fun x => p (f x)) least
  | seq a b => seq (comap f a) (comap f b)
  | alt a b => alt (comap f a) (comap f b)
  | look p => look fun prev next => p (prev.map f) (next.map f)

section Comap
variable (f : β → α) {r : Regex α}

theorem map_manyEnds (p : α → Bool) (least : ℕ) (prev : Option β) (rest : List β) :
    (manyEnds (fun x => p (f x)) least prev rest).map (Cursor.map f) =
      manyEnds p least (prev.map f) (rest.map f) := by
  induction rest generalizing least prev with
  | nil =>
      rw [manyEnds, List.map_nil, manyEnds]
      split
      case isTrue => rfl
      case isFalse => rfl
  | cons x rest ih =>
      rw [manyEnds, List.map_append, List.map_cons, manyEnds]
      congr 1
      · split
        case isTrue => exact ih (least - 1) (some x)
        case isFalse => rfl
      · split
        case isTrue => rfl
        case isFalse => rfl

theorem map_ends (r : Regex α) (c : Cursor β) :
    ((r.comap f).ends c).map (Cursor.map f) = r.ends (c.map f) := by
  induction r generalizing c with
  | empty => rfl
  | char p =>
      cases c with
      | mk prev rest =>
          cases rest with
          | nil => rfl
          | cons x rest =>
              show (if p (f x) then [(⟨some x, rest⟩ : Cursor β)] else []).map (Cursor.map f) =
                if p (f x) then [⟨some (f x), rest.map f⟩] else []
              split
              case isTrue => rfl
              case isFalse => rfl
  | many p least => exact map_manyEnds f p least c.prev c.rest
  | seq a b iha ihb =>
      show (((a.comap f).ends c).flatMap (b.comap f).ends).map (Cursor.map f) =
        (a.ends (c.map f)).flatMap b.ends
      rw [List.map_flatMap, ← iha, List.flatMap_map]
      congr 1
      funext c₁
      exact ihb c₁
  | alt a b iha ihb =>
      show ((a.comap f).ends c ++ (b.comap f).ends c).map (Cursor.map f) = _
      rw [List.map_append, iha, ihb]
      rfl
  | look p =>
      show (if p (c.prev.map f) (c.rest.head?.map f) then [c] else []).map (Cursor.map f) =
        if p (c.map f).prev (c.map f).rest.head? then [c.map f] else []
      rw [Cursor.map, List.head?_map]
      split
      case isTrue => rfl
      case isFalse => rfl

theorem matchLength_comap (r : Regex α) (c : Cursor β) :
    (r.comap f).matchLength c = r.matchLength (c.map f) := by
  rw [matchLength, matchLength, ← map_ends, List.head?_map, Option.map_map]
  congr 1
  funext c'
  show c.rest.length - c'.rest.length = (c.rest.map f).length - (c'.rest.map f).length
  rw [List.length_map, List.length_map]

theorem map_subFrom (r : Regex α) (replacement : List β) (skip : ℕ) (prev : Option β)
    (text : List β) :
    (subFrom (r.comap f) replacement skip prev text).map f =
      subFrom r (replacement.map f) skip (prev.map f) (text.map f) := by
  induction text generalizing skip prev with
  | nil =>
      cases skip with
      | zero | succ _ => rfl
  | cons x rest ih =>
      cases skip with
      | succ skip => exact ih skip (some x)
      | zero =>
          have hsame := matchLength_comap f r ⟨prev, x :: rest⟩
          cases hmatch : r.matchLength (Cursor.map f ⟨prev, x :: rest⟩) with
          | none =>
              have hmapped : r.matchLength ⟨prev.map f, f x :: rest.map f⟩ = none := hmatch
              rw [hmatch] at hsame
              rw [List.map_cons, subFrom, subFrom, hsame, hmapped]
              exact congrArg (f x :: ·) (ih 0 (some x))
          | some n =>
              have hmapped : r.matchLength ⟨prev.map f, f x :: rest.map f⟩ = some n := hmatch
              rw [hmatch] at hsame
              rw [List.map_cons, subFrom, subFrom, hsame, hmapped]
              show List.map f (_ ++ _) = _
              rw [List.map_append]
              exact congrArg (replacement.map f ++ ·) (ih (n - 1) (some x))

theorem map_sub (r : Regex α) (replacement text : List β) :
    ((r.comap f).sub replacement text).map f = r.sub (replacement.map f) (text.map f) :=
  map_subFrom f r replacement 0 none text

theorem Clean.map {text : List β} (h : (r.comap f).Clean text) : r.Clean (text.map f) := by
  intro left right hsplit hmatch
  obtain ⟨left', right', htext, hleft, hright⟩ := List.map_eq_append_iff.mp hsplit
  apply h left' right' htext
  intro hnone
  apply hmatch
  have hread := map_ends f r ⟨before none left', right'⟩
  rw [hnone, Cursor.map, map_before, hleft, hright] at hread
  exact hread.symm

/-- A match in the text that is read takes what a match in the text takes. -/
theorem ends_comap {prev : Option β} {taken rest : List β}
    (h : ⟨(before prev taken).map f, rest.map f⟩ ∈
      r.ends ⟨prev.map f, (taken ++ rest).map f⟩) :
    ⟨before prev taken, rest⟩ ∈ (r.comap f).ends ⟨prev, taken ++ rest⟩ := by
  have hmem := map_ends f r ⟨prev, taken ++ rest⟩
  rw [Cursor.map] at hmem
  rw [← hmem] at h
  obtain ⟨c', hc', heq⟩ := List.mem_map.mp h
  obtain ⟨taken', hsplit, hprev, _⟩ := ends_local hc'
  have hlen : rest.length = c'.rest.length := by
    rw [← List.length_map f, ← List.length_map f, (Cursor.mk.inj heq).2]
  obtain ⟨htaken, hrest⟩ := List.append_inj' hsplit hlen
  have hplace : c' = ⟨before prev taken, rest⟩ := by
    rw [htaken, hrest, ← hprev]
  rw [← hplace]
  exact hc'

theorem weight_map (w : α → ℕ) (text : List β) :
    weight w (text.map f) = weight (fun x => w (f x)) text := by
  rw [weight, weight, List.map_map]
  rfl

theorem WeighsAtLeast.comap {w : α → ℕ} {k : ℕ} (h : WeighsAtLeast w r k) :
    WeighsAtLeast (fun x => w (f x)) (r.comap f) k := by
  intro c c' hc'
  have hmem : c'.map f ∈ r.ends (c.map f) := by
    rw [← map_ends]
    exact List.mem_map_of_mem hc'
  have hweight := h _ _ hmem
  rw [Cursor.map, Cursor.map, weight_map, weight_map] at hweight
  exact hweight

theorem TakesOnly.comap {P : α → Prop} (h : r.TakesOnly P) :
    (r.comap f).TakesOnly fun x => P (f x) := by
  induction r with
  | empty | look _ => trivial
  | char p | many p least => exact fun x hx => h (f x) hx
  | seq a b iha ihb | alt a b iha ihb => exact ⟨iha h.1, ihb h.2⟩

end Comap

section Touching
variable {q r : Regex β} {mark : β → Bool} {prev prev' : Option β} {x y : β}
  {inserted rest taken text : List β}

/-- A match that keeps clear of the marked characters. -/
def MatchesApart (mark : β → Bool) (r : Regex β) (prev : Option β) (text : List β) : Prop :=
  ∃ taken rest, text = taken ++ rest ∧ ⟨before prev taken, rest⟩ ∈ r.ends ⟨prev, text⟩ ∧
    prev.any mark = false ∧ (∀ x ∈ taken, mark x = false) ∧ rest.head?.any mark = false

/-- Every match of an expression takes or touches a marked character. -/
def TouchesFrom (mark : β → Bool) (r : Regex β) (prev : Option β) (text : List β) : Prop :=
  ∀ left right, text = left ++ right → ¬ MatchesApart mark r (before prev left) right

theorem MatchesApart.matches (h : MatchesApart mark r prev text) : r.Matches ⟨prev, text⟩ := by
  obtain ⟨_, _, _, hends, _⟩ := h
  exact matches_iff.mpr ⟨_, hends⟩

theorem TouchesFrom.here (h : TouchesFrom mark r prev text) : ¬ MatchesApart mark r prev text :=
  h [] text rfl

theorem TouchesFrom.behind {left right : List β} (h : TouchesFrom mark r prev (left ++ right)) :
    TouchesFrom mark r (before prev left) right := by
  intro left' right' hsplit
  rw [← before_append]
  apply h (left ++ left') right'
  rw [hsplit, List.append_assoc]

theorem TouchesFrom.tail (h : TouchesFrom mark r prev (x :: rest)) :
    TouchesFrom mark r (some x) rest :=
  fun left right hsplit => h (x :: left) right (congrArg (x :: ·) hsplit)

theorem TouchesFrom.cons (hx : ¬ MatchesApart mark r prev (x :: rest))
    (h : TouchesFrom mark r (some x) rest) : TouchesFrom mark r prev (x :: rest) := by
  intro left right hsplit
  cases left with
  | nil =>
      rw [← show x :: rest = right from hsplit]
      exact hx
  | cons z left =>
      obtain ⟨rfl, hrest⟩ := List.cons.inj hsplit
      exact h left right hrest

theorem TouchesFrom.mark_before (hmark : prev'.any mark = true) (h : TouchesFrom mark r prev text) :
    TouchesFrom mark r prev' text := by
  intro left right hsplit
  cases left with
  | nil =>
      intro hmatch
      obtain ⟨_, _, _, _, hprev, _⟩ := hmatch
      rw [show (before prev' []).any mark = true from hmark] at hprev
      cases hprev
  | cons z left => exact h (z :: left) right hsplit

theorem not_matchesApart_mark (hy : mark y = true) : ¬ MatchesApart mark r prev (y :: rest) := by
  intro h
  obtain ⟨taken, rest', hsplit, _, _, htaken, hnext⟩ := h
  cases taken with
  | nil =>
      rw [← show y :: rest = rest' from hsplit, List.head?_cons, Option.any_some, hy] at hnext
      cases hnext
  | cons z taken =>
      have hz := htaken z List.mem_cons_self
      rw [← (List.cons.inj hsplit).1, hy] at hz
      cases hz

theorem TouchesFrom.insert (h : TouchesFrom mark r prev text)
    (hmark : ∀ x ∈ y :: inserted, mark x = true) :
    TouchesFrom mark r prev' (y :: inserted ++ text) := by
  induction inserted generalizing y prev' with
  | nil =>
      have hy := hmark y List.mem_cons_self
      exact .cons (not_matchesApart_mark hy) (h.mark_before hy)
  | cons x inserted ih =>
      have hy := hmark y List.mem_cons_self
      exact .cons (not_matchesApart_mark hy) (ih fun z hz => hmark z (List.mem_cons_of_mem _ hz))

/-- What a match in the new text takes outside an inserted text was taken in the old one. -/
theorem ends_of_subFrom (hsplit : subFrom q (y :: inserted) 0 prev text = taken ++ rest)
    (hends : ⟨before prev taken, rest⟩ ∈ r.ends ⟨prev, subFrom q (y :: inserted) 0 prev text⟩)
    (hy : y ∉ taken) (hnext : rest.head? ≠ some y) :
    ∃ rest', text = taken ++ rest' ∧ rest'.head? = rest.head? ∧
      ⟨before prev taken, rest'⟩ ∈ r.ends ⟨prev, text⟩ := by
  obtain ⟨rest', htext, hout⟩ := subFrom_start hsplit hy
  have hhead : rest'.head? = rest.head? := by
    cases head?_subFrom q y inserted (before prev taken) rest' with
    | inl hsame => rw [hout, hsame]
    | inr hfound => exact absurd (hout ▸ hfound.1) hnext
  refine ⟨rest', htext, hhead, ?_⟩
  obtain ⟨taken', hsplit', _, hlocal⟩ := ends_local hends
  have htaken : taken = taken' := List.append_cancel_right (hsplit.symm.trans hsplit')
  have halike : r.Alike rest.head? rest'.head? := hhead ▸ Alike.refl r rest'.head?
  rw [htext]
  exact htaken ▸ hlocal rest' halike

/-- A substitution leaves a match that keeps clear of what was inserted only where one was, and
none of its own expression. -/
theorem touches_subFrom (hq : q.Consuming) (hmark : ∀ x ∈ y :: inserted, mark x = true)
    (prev : Option β) (text : List β) : (r = q ∨ TouchesFrom mark r prev text) →
      TouchesFrom mark r prev (subFrom q (y :: inserted) 0 prev text) := by
  have hunmarked : ∀ x, mark x = false → x ≠ y := by
    intro x hx heq
    rw [heq, hmark y List.mem_cons_self] at hx
    cases hx
  induction prev, text using scan_induction hq with
  | done prev =>
      intro h
      cases h with
      | inl heq =>
          rw [heq]
          exact fun left right hsplit hmatch =>
            cleanFrom_nil hq left right hsplit hmatch.matches
      | inr h => exact h
  | kept prev x rest hkept ih =>
      intro h
      have hhere : ¬ MatchesApart mark r prev (x :: rest) := by
        cases h with
        | inl heq => exact fun hmatch => hkept (heq ▸ hmatch.matches)
        | inr h => exact h.here
      have hrest := ih (h.imp_right fun h => h.tail)
      rw [subFrom_kept hkept]
      refine .cons ?_ hrest
      rw [← subFrom_kept hkept]
      intro hmatch
      obtain ⟨taken, out, hsplit, hends, hprev, htaken, hnext⟩ := hmatch
      have hy : y ∉ taken := fun hmem => hunmarked y (htaken y hmem) rfl
      have hhead : out.head? ≠ some y := by
        intro heq
        rw [heq] at hnext
        exact hunmarked y hnext rfl
      obtain ⟨rest', htext, hsame, hends'⟩ := ends_of_subFrom hsplit hends hy hhead
      exact hhere ⟨taken, rest', htext, hends', hprev, htaken, hsame ▸ hnext⟩
  | found prev taken rest hne hends hlen ih =>
      intro h
      have hrest := ih (h.imp_right fun h => h.behind)
      rw [subFrom_found hlen hne]
      exact TouchesFrom.insert hrest hmark

end Touching

section Taking
variable {q r : Regex β} {P : List β → Prop} {prev : Option β} {x opening closing : β}
  {letters taken left right rest text : List β} {w : β → ℕ} {k : ℕ}

/-- An expression takes these characters at some place. -/
def CanTake (r : Regex β) (taken : List β) : Prop :=
  ∃ prev rest, ⟨before prev taken, rest⟩ ∈ r.ends ⟨prev, taken ++ rest⟩

/-- What an expression can take of a text has a property. -/
def Takings (r : Regex β) (P : List β → Prop) (text : List β) : Prop :=
  ∀ left taken right, text = left ++ (taken ++ right) → r.CanTake taken → P taken

/-- An expression takes neither bracket, and more than there is between them. -/
structure Outside (opening : β) (letters : List β) (closing : β) (r : Regex β) : Prop where
  takes : r.TakesOnly fun x => x ≠ opening ∧ x ≠ closing
  lighter : ∃ w k, r.WeighsAtLeast w k ∧ weight w letters < k

/-- An expression without conditions. -/
def LookFree : Regex β → Prop
  | empty | char _ | many _ _ => True
  | seq a b | alt a b => LookFree a ∧ LookFree b
  | look _ => False

theorem LookFree.comap (f : β → α) {r : Regex α} (h : r.LookFree) : (r.comap f).LookFree := by
  induction r with
  | empty | char _ | many _ _ => trivial
  | seq a b iha ihb | alt a b iha ihb => exact ⟨iha h.1, ihb h.2⟩
  | look p => exact h.elim

theorem TakesOnly.canTake {Q : β → Prop} (h : r.TakesOnly Q) (htake : r.CanTake taken) :
    ∀ x ∈ taken, Q x := by
  obtain ⟨prev, rest, hends⟩ := htake
  exact h.ends hends rfl

theorem WeighsAtLeast.canTake (h : WeighsAtLeast w r k) (htake : r.CanTake taken) :
    k ≤ weight w taken := by
  obtain ⟨prev, rest, hends⟩ := htake
  exact h.taken hends rfl

/-- Without conditions an expression takes the same characters everywhere. -/
theorem LookFree.ends_anywhere {c c' : Cursor β} (h : r.LookFree) (hc : c' ∈ r.ends c)
    (hrest : c.rest = taken ++ c'.rest) (prev : Option β) (rest : List β) :
    ⟨before prev taken, rest⟩ ∈ r.ends ⟨prev, taken ++ rest⟩ := by
  induction r generalizing c c' taken prev rest with
  | empty =>
      rw [List.mem_singleton.mp hc] at hrest
      rw [List.self_eq_append_left.mp hrest]
      exact List.mem_singleton_self _
  | char p =>
      obtain ⟨x, hx, hrest', _⟩ := mem_ends_char.mp hc
      have htaken : taken = [x] := List.append_cancel_right (hrest.symm.trans hrest')
      rw [htaken]
      exact mem_ends_char.mpr ⟨x, hx, rfl, rfl⟩
  | many p least =>
      obtain ⟨taken', hrest', _, hall, hlen⟩ := mem_ends_many.mp hc
      rw [List.append_cancel_right (hrest.symm.trans hrest')]
      exact mem_ends_many.mpr ⟨taken', rfl, rfl, hall, hlen⟩
  | seq a b iha ihb =>
      obtain ⟨c₁, first, second, hc₁, hc', hfirst, hsecond, htaken⟩ := taken_seq hc hrest
      rw [htaken, before_append, List.append_assoc]
      exact mem_ends_seq.mpr
        ⟨_, iha h.1 hc₁ hfirst prev (second ++ rest), ihb h.2 hc' hsecond _ rest⟩
  | alt a b iha ihb =>
      cases mem_ends_alt.mp hc with
      | inl hc => exact mem_ends_alt.mpr (.inl (iha h.1 hc hrest prev rest))
      | inr hc => exact mem_ends_alt.mpr (.inr (ihb h.2 hc hrest prev rest))
  | look p => exact h.elim

theorem LookFree.matches_anywhere (h : r.LookFree) (htake : r.CanTake taken) (prev : Option β)
    (rest : List β) : r.Matches ⟨prev, taken ++ rest⟩ := by
  obtain ⟨prev', rest', hends⟩ := htake
  exact matches_iff.mpr ⟨_, h.ends_anywhere hends rfl prev rest⟩

theorem Takings.behind (h : r.Takings P (left ++ text)) : r.Takings P text := by
  intro left' taken right hsplit
  apply h (left ++ left') taken right
  rw [hsplit, List.append_assoc]

theorem Takings.tail (h : r.Takings P (x :: rest)) : r.Takings P rest :=
  fun left taken right hsplit => h (x :: left) taken right (congrArg (x :: ·) hsplit)

theorem Takings.cons (hx : ∀ taken right, x :: rest = taken ++ right → r.CanTake taken → P taken)
    (h : r.Takings P rest) : r.Takings P (x :: rest) := by
  intro left taken right hsplit
  cases left with
  | nil => exact hx taken right hsplit
  | cons z left => exact h left taken right (List.cons.inj hsplit).2

theorem Matches.canTake (h : r.Matches ⟨prev, text⟩) :
    ∃ taken right, text = taken ++ right ∧ r.CanTake taken := by
  obtain ⟨c', hc'⟩ := matches_iff.mp h
  obtain ⟨taken, hrest, hprev, _⟩ := ends_local hc'
  change text = taken ++ c'.rest at hrest
  change c'.prev = before prev taken at hprev
  refine ⟨taken, c'.rest, hrest, prev, c'.rest, ?_⟩
  rw [← hrest, ← hprev]
  exact hc'

theorem Takings.clean (h : r.Takings (fun _ => False) text) : r.Clean text := by
  intro left right hsplit hmatch
  obtain ⟨taken, rest, hright, htake⟩ := hmatch.canTake
  rw [hright] at hsplit
  exact h left taken rest hsplit htake

/-- Nothing is taken from the start of what is light up to the bracket. -/
theorem not_canTake_letters (htakes : r.TakesOnly fun x => x ≠ opening ∧ x ≠ closing)
    (hweight : WeighsAtLeast w r k) (hlight : weight w letters < k)
    (hsplit : letters ++ closing :: rest = taken ++ right) : ¬ r.CanTake taken := by
  intro htake
  have hheavy := hweight.canTake htake
  cases List.append_eq_append_iff.mp hsplit with
  | inl hlong =>
      obtain ⟨extra, htaken, hclosing⟩ := hlong
      cases extra with
      | nil =>
          rw [htaken, List.append_nil] at hheavy
          omega
      | cons y extra =>
          have hy : y ∈ taken := by
            rw [htaken]
            exact List.mem_append_right _ List.mem_cons_self
          exact (htakes.canTake htake y hy).2 (List.cons.inj hclosing).1.symm
  | inr hshort =>
      obtain ⟨extra, hletters, _⟩ := hshort
      rw [hletters, weight_append] at hlight
      omega

theorem Outside.not_canTake_opening (hr : Outside opening letters closing r)
    (hsplit : opening :: rest = taken ++ right) : ¬ r.CanTake taken := by
  intro htake
  obtain ⟨w, k, hweight, hlight⟩ := hr.lighter
  cases taken with
  | nil =>
      have hheavy := hweight.canTake htake
      rw [weight_nil] at hheavy
      omega
  | cons y taken =>
      have hy := hr.takes.canTake htake y List.mem_cons_self
      exact hy.1 (List.cons.inj hsplit).1.symm

theorem Outside.takings (hr : Outside opening letters closing r) (h : r.Takings P rest) :
    r.Takings P (opening :: (letters ++ [closing]) ++ rest) := by
  obtain ⟨w, k, hweight, hlight⟩ := hr.lighter
  have hinside : ∀ letters : List β, weight w letters < k →
      r.Takings P (letters ++ closing :: rest) := by
    intro letters
    induction letters with
    | nil =>
        intro hlight
        refine Takings.cons ?_ h
        intro taken right hsplit htake
        exact absurd htake (not_canTake_letters hr.takes hweight hlight hsplit)
    | cons x letters ih =>
        intro hlight
        have hrest : weight w letters < k := by
          rw [weight_cons] at hlight
          omega
        refine Takings.cons ?_ (ih hrest)
        intro taken right hsplit htake
        exact absurd htake (not_canTake_letters hr.takes hweight hlight hsplit)
  rw [List.cons_append, List.append_assoc]
  refine Takings.cons ?_ (hinside letters hlight)
  intro taken right hsplit htake
  exact absurd htake (hr.not_canTake_opening hsplit)

theorem Outside.cleanFrom (hr : Outside opening letters closing r)
    (h : r.CleanFrom (some closing) rest) :
    r.CleanFrom prev (opening :: (letters ++ [closing]) ++ rest) := by
  obtain ⟨w, k, hweight, hlight⟩ := hr.lighter
  have hnone : ∀ (letters : List β) (prev : Option β), weight w letters < k →
      ¬ r.Matches ⟨prev, letters ++ closing :: rest⟩ := by
    intro letters prev hlight hmatch
    obtain ⟨taken, right, hsplit, htake⟩ := hmatch.canTake
    exact not_canTake_letters hr.takes hweight hlight hsplit htake
  have hinside : ∀ (letters : List β) (prev : Option β), weight w letters < k →
      r.CleanFrom prev (letters ++ closing :: rest) := by
    intro letters
    induction letters with
    | nil => exact fun prev hlight => .cons (hnone [] prev hlight) h
    | cons x letters ih =>
        intro prev hlight
        have hrest : weight w letters < k := by
          rw [weight_cons] at hlight
          omega
        exact .cons (hnone (x :: letters) prev hlight) (ih (some x) hrest)
  rw [List.cons_append, List.append_assoc]
  refine .cons ?_ (hinside letters (some opening) hlight)
  intro hmatch
  obtain ⟨taken, right, hsplit, htake⟩ := hmatch.canTake
  exact hr.not_canTake_opening hsplit htake

/-- What can be taken after a substitution could be taken before it, and an expression without
conditions leaves nothing of its own. -/
theorem takings_subFrom (hq : q.Consuming) (hr : Outside opening letters closing r)
    (prev : Option β) (text : List β) : (r.Takings P text ∨ r = q ∧ r.LookFree) →
      r.Takings P (subFrom q (opening :: (letters ++ [closing])) 0 prev text) := by
  induction prev, text using scan_induction hq with
  | done prev =>
      intro h left taken right hsplit htake
      cases h with
      | inl h => exact h left taken right hsplit htake
      | inr h =>
          obtain ⟨_, hright⟩ := List.append_eq_nil_iff.mp hsplit.symm
          rw [(List.append_eq_nil_iff.mp hright).1] at htake
          have hheavy := WeighsAtLeast.canTake (h.1 ▸ hq) htake
          rw [weight_nil] at hheavy
          omega
  | kept prev x rest hkept ih =>
      intro h
      have hrest := ih (h.imp_left fun h => h.tail)
      rw [subFrom_kept hkept]
      refine Takings.cons ?_ hrest
      intro taken right hsplit htake
      have hopening : opening ∉ taken := fun hmem => (hr.takes.canTake htake _ hmem).1 rfl
      rw [← subFrom_kept hkept] at hsplit
      obtain ⟨rest', htext, _⟩ := subFrom_start hsplit hopening
      cases h with
      | inl h => exact h [] taken rest' htext htake
      | inr h =>
          rw [htext] at hkept
          exact absurd (h.1 ▸ h.2.matches_anywhere htake prev rest') hkept
  | found prev taken rest hne hends hlen ih =>
      intro h
      have hrest := ih (h.imp_left fun h => h.behind)
      rw [subFrom_found hlen hne]
      exact hr.takings hrest

theorem TouchesFrom.beside {mark : β → Bool} (htouch : TouchesFrom mark r none text)
    (htake : r.Takings (fun taken => ∀ x ∈ taken, mark x = false) text)
    (hsplit : text = left ++ (taken ++ right))
    (hends : ⟨before (before none left) taken, right⟩ ∈
      r.ends ⟨before none left, taken ++ right⟩) :
    (∀ x ∈ taken, mark x = false) ∧
      ((before none left).any mark = true ∨ right.head?.any mark = true) := by
  have htaken := htake left taken right hsplit ⟨_, right, hends⟩
  refine ⟨htaken, ?_⟩
  cases hprev : (before none left).any mark with
  | true => exact .inl rfl
  | false =>
      cases hnext : right.head?.any mark with
      | true => exact .inr rfl
      | false =>
          exact absurd ⟨taken, right, rfl, hends, hprev, htaken, hnext⟩ (htouch left _ hsplit)

end Taking

end Regex

end Engramia.Library
