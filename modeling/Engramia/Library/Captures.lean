import Engramia.Library.Insertions

/-!
Substitution by an expression of two parts, which keeps what the first part took and puts a text
in the place of what the second took. Up to the inserted bracket the new text is the old one, so
what can be taken in the new text could be taken in the old one, and the part that is kept is too
light for a match of its own.
-/
namespace Engramia.Library.Regex

universe u
variable {α : Type u}

section Definitions

/-- How many characters the first match of two parts takes: the first part alone, and both. -/
def partLengths (a b : Regex α) (c : Cursor α) : Option (ℕ × ℕ) :=
  ((a.ends c).flatMap fun c₁ => (b.ends c₁).map fun c' => (c₁, c')).head?.map fun p =>
    (c.rest.length - p.1.rest.length, c.rest.length - p.2.rest.length)

def keepFrom (a b : Regex α) (inserted : List α) : ℕ → Option α → List α → List α
  | _, _, [] => []
  | skip + 1, _, x :: rest => keepFrom a b inserted skip (some x) rest
  | 0, prev, x :: rest =>
      match partLengths a b ⟨prev, x :: rest⟩ with
      | some (kept, n) =>
          (x :: rest).take kept ++ (inserted ++ keepFrom a b inserted (n - 1) (some x) rest)
      | none => x :: keepFrom a b inserted 0 (some x) rest

/-- `re.sub` of an expression with a group at its start, which the replacement names first. -/
def subKeeping (a b : Regex α) (inserted text : List α) : List α :=
  keepFrom a b inserted 0 none text

/-- What an expression takes is light. -/
def WeighsBelow (w : α → ℕ) (r : Regex α) (k : ℕ) : Prop :=
  ∀ c, ∀ c' ∈ r.ends c, weight w c.rest < weight w c'.rest + k

end Definitions

section Parts
variable {a b r : Regex α} {c : Cursor α} {prev : Option α} {x y : α}
  {inserted first second taken rest text : List α} {w : α → ℕ} {k l : ℕ} {p : α → Bool}

theorem weight_eq_zero (h : ∀ x ∈ text, w x = 0) : weight w text = 0 := by
  induction text with
  | nil => rfl
  | cons x text ih =>
      obtain ⟨hx, htext⟩ := List.forall_mem_cons.mp h
      simp [hx, ih htext]

namespace WeighsBelow

theorem mono (h : WeighsBelow w r k) (hle : k ≤ l) : WeighsBelow w r l := by
  intro c c' hc'
  have hk := h c c' hc'
  omega

theorem empty (w : α → ℕ) : WeighsBelow w empty 1 := by
  intro c c' hc'
  rw [List.mem_singleton.mp hc']
  exact Nat.lt_succ_self _

theorem char (h : ∀ x, p x = true → w x ≤ k) : WeighsBelow w (char p) (k + 1) := by
  intro c c' hc'
  obtain ⟨x, hx, hrest, _⟩ := mem_ends_char.mp hc'
  have hlight := h x hx
  simp only [hrest, weight_cons]
  omega

theorem many (h : ∀ x, p x = true → w x = 0) (least : ℕ) : WeighsBelow w (many p least) 1 := by
  intro c c' hc'
  obtain ⟨taken, hrest, _, hall, _⟩ := mem_ends_many.mp hc'
  have hlight := weight_eq_zero fun x hx => h x (hall x hx)
  simp only [hrest, weight_append, hlight]
  omega

theorem seq (ha : WeighsBelow w a (k + 1)) (hb : WeighsBelow w b (l + 1)) :
    WeighsBelow w (seq a b) (k + l + 1) := by
  intro c c' hc'
  obtain ⟨c₁, hc₁, hc'⟩ := mem_ends_seq.mp hc'
  have hfirst := ha c c₁ hc₁
  have hsecond := hb c₁ c' hc'
  omega

end WeighsBelow

theorem matchLength_seq (a b : Regex α) (c : Cursor α) :
    (seq a b).matchLength c = (partLengths a b c).map Prod.snd := by
  have hsnd : (seq a b).ends c =
      ((a.ends c).flatMap fun c₁ => (b.ends c₁).map fun c' => (c₁, c')).map Prod.snd := by
    simp [ends, List.map_flatMap, Function.comp_def]
  simp [matchLength, partLengths, hsnd, Function.comp_def]

theorem partLengths_eq_none : partLengths a b c = none ↔ ¬ (seq a b).Matches c := by
  rw [← matchLength_eq_none, matchLength_seq, Option.map_eq_none_iff]

theorem partLengths_found
    (hlen : (seq a b).matchLength ⟨prev, taken ++ rest⟩ = some taken.length) :
    ∃ first second, taken = first ++ second ∧
      partLengths a b ⟨prev, taken ++ rest⟩ = some (first.length, taken.length) ∧
      ⟨before prev first, second ++ rest⟩ ∈ a.ends ⟨prev, taken ++ rest⟩ := by
  rw [matchLength_seq, Option.map_eq_some_iff] at hlen
  obtain ⟨lengths, hparts, hsnd⟩ := hlen
  obtain ⟨ends, hhead, hlengths⟩ := Option.map_eq_some_iff.mp hparts
  obtain ⟨c₁, hc₁, hends⟩ := List.mem_flatMap.mp (List.mem_of_head? hhead)
  obtain ⟨c', hc', rfl⟩ := List.mem_map.mp hends
  obtain ⟨first, hfirst, hprev, _⟩ := ends_local hc₁
  obtain ⟨second, hsecond, _⟩ := ends_local hc'
  change taken ++ rest = first ++ c₁.rest at hfirst
  have hboth : taken.length = (first ++ second).length := by
    rw [← hsnd, ← hlengths]
    simp only [hfirst, hsecond, List.length_append]
    omega
  have hsplit : taken ++ rest = (first ++ second) ++ c'.rest := by
    rw [hfirst, hsecond, List.append_assoc]
  obtain ⟨htaken, hrest⟩ := List.append_inj hsplit hboth
  refine ⟨first, second, htaken, ?_, ?_⟩
  · rw [hparts, ← hsnd, ← hlengths]
    simp only [hfirst, List.length_append, Nat.add_sub_cancel]
  · have hplace : c₁ = ⟨before prev first, second ++ rest⟩ := by
      rw [hrest, ← hsecond, ← hprev]
    rw [← hplace]
    exact hc₁

theorem keepFrom_skip (taken : List α) :
    keepFrom a b inserted taken.length prev (taken ++ rest) =
      keepFrom a b inserted 0 (before prev taken) rest := by
  induction taken generalizing prev with
  | nil => rfl
  | cons x taken ih => exact ih

theorem keepFrom_kept (h : ¬ (seq a b).Matches ⟨prev, x :: rest⟩) :
    keepFrom a b inserted 0 prev (x :: rest) = x :: keepFrom a b inserted 0 (some x) rest := by
  rw [keepFrom, partLengths_eq_none.mpr h]

theorem keepFrom_found
    (hparts : partLengths a b ⟨prev, taken ++ rest⟩ = some (first.length, taken.length))
    (htaken : taken = first ++ second) (hne : taken ≠ []) :
    keepFrom a b inserted 0 prev (taken ++ rest) =
      first ++ (inserted ++ keepFrom a b inserted 0 (before prev taken) rest) := by
  cases taken with
  | nil => exact absurd rfl hne
  | cons x behind =>
      have htake : (x :: (behind ++ rest)).take first.length = first := by
        rw [← List.cons_append, htaken, List.append_assoc, List.take_left]
      rw [List.cons_append] at hparts ⊢
      rw [keepFrom, hparts]
      simp only [htake, List.length_cons, Nat.add_sub_cancel]
      rw [keepFrom_skip]
      rfl

end Parts

section Taking
variable {a b r : Regex α} {P : List α → Prop} {prev : Option α} {opening closing : α}
  {letters first taken right rest text out : List α} {w : α → ℕ} {k : ℕ}

/-- A start of the new text without an inserted bracket is one of the old text. -/
theorem keepFrom_start (hab : (seq a b).Consuming) (prev : Option α) (text : List α) :
    ∀ taken out, keepFrom a b (opening :: letters) 0 prev text = taken ++ out →
      opening ∉ taken → ∃ rest, text = taken ++ rest := by
  induction prev, text using scan_induction hab with
  | done prev =>
      intro taken out hsplit _
      have hnil : taken ++ out = [] := hsplit.symm
      rw [(List.append_eq_nil_iff.mp hnil).1]
      exact ⟨[], rfl⟩
  | kept prev x rest hkept ih =>
      intro taken out hsplit hopening
      rw [keepFrom_kept hkept] at hsplit
      cases taken with
      | nil => exact ⟨x :: rest, rfl⟩
      | cons y taken =>
          obtain ⟨rfl, hrest⟩ := List.cons.inj hsplit
          obtain ⟨rest', hrest'⟩ :=
            ih taken out hrest fun hmem => hopening (List.mem_cons_of_mem _ hmem)
          exact ⟨rest', congrArg (x :: ·) hrest'⟩
  | found prev taken rest hne hends hlen ih =>
      intro start out hsplit hopening
      obtain ⟨first, second, htaken, hparts, _⟩ := partLengths_found hlen
      rw [keepFrom_found hparts htaken hne] at hsplit
      cases List.append_eq_append_iff.mp hsplit with
      | inl hlong =>
          obtain ⟨extra, hstart, hbehind⟩ := hlong
          cases extra with
          | nil =>
              rw [List.append_nil] at hstart
              exact ⟨second ++ rest, by rw [hstart, htaken, List.append_assoc]⟩
          | cons y extra =>
              have hy : y = opening := (List.cons.inj hbehind).1.symm
              apply absurd _ hopening
              simp [hstart, hy]
      | inr hshort =>
          obtain ⟨extra, hfirst, _⟩ := hshort
          exact ⟨extra ++ (second ++ rest), by simp [htaken, hfirst]⟩

/-- What is taken of a text before a bracket is taken of the text alone. -/
theorem Takings.prepend (htakes : r.TakesOnly fun x => x ≠ opening)
    (hstart : ∀ left taken right, first = left ++ (taken ++ right) → r.CanTake taken → P taken)
    (h : r.Takings P (opening :: rest)) : r.Takings P (first ++ opening :: rest) := by
  induction first with
  | nil => exact h
  | cons x first ih =>
      refine Takings.cons ?_ (ih fun left taken right hsplit =>
        hstart (x :: left) taken right (congrArg (x :: ·) hsplit))
      intro taken right hsplit htake
      have hopening : opening ∉ taken := fun hmem => htakes.canTake htake _ hmem rfl
      have hboth : (x :: first) ++ opening :: rest = taken ++ right := hsplit
      cases List.append_eq_append_iff.mp hboth with
      | inl hlong =>
          obtain ⟨extra, htaken, hbehind⟩ := hlong
          cases extra with
          | nil =>
              rw [List.append_nil] at htaken
              exact hstart [] taken [] (by simp [htaken]) htake
          | cons y extra =>
              have hy : y = opening := (List.cons.inj hbehind).1.symm
              exact absurd (by simp [htaken, hy]) hopening
      | inr hshort =>
          obtain ⟨extra, hfirst, _⟩ := hshort
          exact hstart [] taken extra hfirst htake

/-- What can be taken after a substitution that keeps a light part could be taken before it, and
an expression without conditions leaves nothing of its own. -/
theorem takings_keepFrom (hab : (seq a b).Consuming) (hr : Outside opening letters closing r)
    (hheavy : WeighsAtLeast w (seq a b) k) (hlight : WeighsBelow w a k) (prev : Option α)
    (text : List α) : (r.Takings P text ∨ r = seq a b ∧ r.LookFree) →
      r.Takings P (keepFrom a b (opening :: (letters ++ [closing])) 0 prev text) := by
  induction prev, text using scan_induction hab with
  | done prev =>
      intro h left taken right hsplit htake
      cases h with
      | inl h => exact h left taken right hsplit htake
      | inr h =>
          have hnil : left ++ (taken ++ right) = [] := hsplit.symm
          simp only [List.append_eq_nil_iff] at hnil
          rw [hnil.2.1] at htake
          have hone := WeighsAtLeast.canTake (h.1 ▸ hab) htake
          rw [weight_nil] at hone
          omega
  | kept prev x rest hkept ih =>
      intro h
      have hrest := ih (h.imp_left fun h => h.tail)
      rw [keepFrom_kept hkept]
      refine Takings.cons ?_ hrest
      intro taken right hsplit htake
      have hopening : opening ∉ taken := fun hmem => (hr.takes.canTake htake _ hmem).1 rfl
      rw [← keepFrom_kept hkept] at hsplit
      obtain ⟨rest', htext⟩ := keepFrom_start hab prev (x :: rest) taken right hsplit hopening
      cases h with
      | inl h => exact h [] taken rest' htext htake
      | inr h =>
          rw [htext] at hkept
          exact absurd (h.1 ▸ h.2.matches_anywhere htake prev rest') hkept
  | found prev taken rest hne hends hlen ih =>
      intro h
      have hrest := ih (h.imp_left fun h => h.behind)
      obtain ⟨first, second, htaken, hparts, hfirst⟩ := partLengths_found hlen
      rw [keepFrom_found hparts htaken hne]
      refine Takings.prepend (hr.takes.mono fun x hx => hx.1) ?_ (hr.takings hrest)
      intro left start right hsplit htake
      cases h with
      | inl h => exact h left start (right ++ (second ++ rest)) (by simp [htaken, hsplit]) htake
      | inr h =>
          have hbelow := hlight _ _ hfirst
          have habove := WeighsAtLeast.canTake (h.1 ▸ hheavy) htake
          simp only [htaken, hsplit, weight_append] at hbelow
          omega

theorem keepFrom_clean (inserted : List α) (h : (seq a b).CleanFrom prev text) :
    keepFrom a b inserted 0 prev text = text := by
  induction text generalizing prev with
  | nil => rfl
  | cons x rest ih => rw [keepFrom_kept h.here, ih h.tail]

end Taking

end Engramia.Library.Regex
