import Mathlib.Algebra.GroupWithZero.Nat
import Mathlib.Algebra.Order.BigOperators.Group.List
import Mathlib.Data.List.Basic

/-!
Regular expressions with the search of a backtracking engine, over any alphabet. The ways in
which an expression matches at a place are listed in the order in which the engine tries them,
and a substitution replaces the first way at the leftmost place, and goes on behind it.

Whether an expression matches at a place depends on what it takes, the character before it and
the one after. A match in the text after a substitution that keeps clear of what was inserted is
therefore a match in the text before it.
-/
namespace Engramia.Library

universe u v
variable {α : Type u} {β : Type v}

/-- A place in a text: the character before it, and what follows. -/
structure Cursor (α : Type u) where
  prev : Option α
  rest : List α

/-- The character before the place behind some further characters. -/
def before (prev : Option α) : List α → Option α
  | [] => prev
  | x :: taken => before (some x) taken

theorem before_append (prev : Option α) (taken taken' : List α) :
    before prev (taken ++ taken') = before (before prev taken) taken' := by
  induction taken generalizing prev with
  | nil => rfl
  | cons x taken ih => exact ih (some x)

theorem before_mem {prev : Option α} {taken : List α} (h : taken ≠ []) :
    ∃ x ∈ taken, before prev taken = some x := by
  induction taken generalizing prev with
  | nil => exact absurd rfl h
  | cons x taken ih =>
      cases taken with
      | nil => exact ⟨x, List.mem_cons_self, rfl⟩
      | cons y taken =>
          obtain ⟨z, hz, hlast⟩ := @ih (some x) (List.cons_ne_nil _ _)
          exact ⟨z, List.mem_cons_of_mem _ hz, hlast⟩

inductive Regex (α : Type u) where
  | empty
  | char (p : α → Bool)
  /-- As many characters as there are, and at least some number of them. -/
  | many (p : α → Bool) (least : ℕ)
  | seq (a b : Regex α)
  | alt (a b : Regex α)
  /-- A condition on the characters before and after. -/
  | look (p : Option α → Option α → Bool)

namespace Regex

section Definitions

def manyEnds (p : α → Bool) : ℕ → Option α → List α → List (Cursor α)
  | least, prev, [] => if least = 0 then [⟨prev, []⟩] else []
  | least, prev, x :: rest =>
      (if p x then manyEnds p (least - 1) (some x) rest else []) ++
        if least = 0 then [⟨prev, x :: rest⟩] else []

/-- The places at which a match that starts here may end, in the order of the search. -/
def ends : Regex α → Cursor α → List (Cursor α)
  | empty, c => [c]
  | char p, c =>
      match c.rest with
      | [] => []
      | x :: rest => if p x then [⟨some x, rest⟩] else []
  | many p least, c => manyEnds p least c.prev c.rest
  | seq a b, c => (a.ends c).flatMap b.ends
  | alt a b, c => a.ends c ++ b.ends c
  | look p, c => if p c.prev c.rest.head? then [c] else []

def opt (a : Regex α) : Regex α := alt a empty

def upTo (a : Regex α) : ℕ → Regex α
  | 0 => empty
  | extra + 1 => opt (seq a (upTo a extra))

/-- At least `least` and up to `extra` more. -/
def rep (a : Regex α) : ℕ → ℕ → Regex α
  | 0, extra => upTo a extra
  | least + 1, extra => seq a (rep a least extra)

/-- The expressions one after another. -/
def concat : List (Regex α) → Regex α
  | [] => empty
  | a :: as => seq a (concat as)

/-- How many characters the first match at a place takes. -/
def matchLength (r : Regex α) (c : Cursor α) : Option ℕ :=
  (r.ends c).head?.map fun c' => c.rest.length - c'.rest.length

/-- The substitution behind `skip` further characters of a match. Matches are not empty. -/
def subFrom (r : Regex α) (replacement : List α) : ℕ → Option α → List α → List α
  | _, _, [] => []
  | skip + 1, _, x :: rest => subFrom r replacement skip (some x) rest
  | 0, prev, x :: rest =>
      match r.matchLength ⟨prev, x :: rest⟩ with
      | some n => replacement ++ subFrom r replacement (n - 1) (some x) rest
      | none => x :: subFrom r replacement 0 (some x) rest

/-- `re.sub` -/
def sub (r : Regex α) (replacement text : List α) : List α :=
  subFrom r replacement 0 none text

/-- The expression matches at a place. -/
def Matches (r : Regex α) (c : Cursor α) : Prop :=
  r.ends c ≠ []

/-- An expression matches nowhere in a text behind a character. -/
def CleanFrom (r : Regex α) (prev : Option α) (text : List α) : Prop :=
  ∀ left right, text = left ++ right → ¬ r.Matches ⟨before prev left, right⟩

def Clean (r : Regex α) (text : List α) : Prop :=
  r.CleanFrom none text

end Definitions

section Ends
variable {r a b : Regex α} {p : α → Bool} {c c' : Cursor α} {x : α} {least : ℕ}
  {prev : Option α} {rest : List α}

theorem matches_iff : r.Matches c ↔ ∃ c', c' ∈ r.ends c :=
  ⟨List.exists_mem_of_ne_nil _, fun ⟨_, h⟩ => List.ne_nil_of_mem h⟩

theorem mem_ends_char :
    c' ∈ (char p).ends c ↔ ∃ x, p x = true ∧ c.rest = x :: c'.rest ∧ c'.prev = some x := by
  rw [ends]
  constructor
  · intro h
    split at h
    case h_1 => cases h
    case h_2 x rest hrest =>
        split at h
        case isTrue hx =>
            rw [List.mem_singleton.mp h]
            exact ⟨x, hx, hrest, rfl⟩
        case isFalse => cases h
  · intro h
    obtain ⟨x, hx, hrest, hprev⟩ := h
    rw [hrest]
    dsimp only
    rw [if_pos hx, ← hprev]
    exact List.mem_singleton_self c'

theorem mem_ends_seq : c' ∈ (seq a b).ends c ↔ ∃ c₁ ∈ a.ends c, c' ∈ b.ends c₁ :=
  List.mem_flatMap

theorem mem_ends_alt : c' ∈ (alt a b).ends c ↔ c' ∈ a.ends c ∨ c' ∈ b.ends c :=
  List.mem_append

theorem mem_ends_look {p : Option α → Option α → Bool} :
    c' ∈ (look p).ends c ↔ p c.prev c.rest.head? = true ∧ c' = c := by
  rw [ends]
  split
  case isTrue h => rw [List.mem_singleton, and_iff_right h]
  case isFalse h => simp [h]

theorem mem_manyEnds :
    c' ∈ manyEnds p least prev rest ↔ ∃ taken, rest = taken ++ c'.rest ∧
      c'.prev = before prev taken ∧ (∀ x ∈ taken, p x = true) ∧ least ≤ taken.length := by
  induction rest generalizing least prev with
  | nil =>
      cases c' with
      | mk prev' rest' =>
          rw [manyEnds]
          constructor
          · intro h
            split at h
            case isTrue hleast =>
                obtain ⟨rfl, rfl⟩ := Cursor.mk.inj (List.mem_singleton.mp h)
                exact ⟨[], rfl, rfl, fun _ hx => absurd hx List.not_mem_nil, hleast.le⟩
            case isFalse => cases h
          · intro h
            obtain ⟨taken, hsplit, hprev, _, hlen⟩ := h
            obtain ⟨rfl, rfl⟩ := List.append_eq_nil_iff.mp hsplit.symm
            rw [if_pos (Nat.le_zero.mp hlen), List.mem_singleton, Cursor.mk.injEq]
            exact ⟨hprev, rfl⟩
  | cons x rest ih =>
      cases c' with
      | mk prev' rest' =>
          rw [manyEnds, List.mem_append]
          constructor
          · intro h
            cases h with
            | inl h =>
                split at h
                case isTrue hx =>
                    obtain ⟨taken, hsplit, hprev, hall, hlen⟩ := ih.mp h
                    refine ⟨x :: taken, congrArg (x :: ·) hsplit, hprev,
                      List.forall_mem_cons.mpr ⟨hx, hall⟩, ?_⟩
                    rw [List.length_cons]
                    omega
                case isFalse => cases h
            | inr h =>
                split at h
                case isTrue hleast =>
                    obtain ⟨rfl, rfl⟩ := Cursor.mk.inj (List.mem_singleton.mp h)
                    exact ⟨[], rfl, rfl, fun _ hx => absurd hx List.not_mem_nil, hleast.le⟩
                case isFalse => cases h
          · intro h
            obtain ⟨taken, hsplit, hprev, hall, hlen⟩ := h
            cases taken with
            | nil =>
                right
                rw [if_pos (Nat.le_zero.mp hlen), List.mem_singleton, Cursor.mk.injEq]
                exact ⟨hprev, hsplit.symm⟩
            | cons y taken =>
                left
                obtain ⟨rfl, hrest⟩ := List.cons.inj hsplit
                obtain ⟨hy, hall⟩ := List.forall_mem_cons.mp hall
                rw [if_pos hy]
                refine ih.mpr ⟨taken, hrest, hprev, hall, ?_⟩
                rw [List.length_cons] at hlen
                omega

theorem mem_ends_many :
    c' ∈ (many p least).ends c ↔ ∃ taken, c.rest = taken ++ c'.rest ∧
      c'.prev = before c.prev taken ∧ (∀ x ∈ taken, p x = true) ∧ least ≤ taken.length :=
  mem_manyEnds

end Ends

section Locality
variable {r : Regex α} {c c' : Cursor α} {next next' : Option α}

/-- The conditions of an expression do not tell two characters behind a match apart. -/
def Alike : Regex α → Option α → Option α → Prop
  | empty, _, _ => True
  | char _, _, _ => True
  | many _ _, _, _ => True
  | seq a b, next, next' => Alike a next next' ∧ Alike b next next'
  | alt a b, next, next' => Alike a next next' ∧ Alike b next next'
  | look p, next, next' => ∀ prev, p prev next = p prev next'

theorem Alike.refl (r : Regex α) (next : Option α) : r.Alike next next := by
  induction r with
  | empty | char _ | many _ _ => trivial
  | seq a b iha ihb | alt a b iha ihb => exact ⟨iha, ihb⟩
  | look p => exact fun _ => rfl

theorem Alike.upTo {a : Regex α} (h : a.Alike next next') (extra : ℕ) :
    (a.upTo extra).Alike next next' := by
  induction extra with
  | zero => trivial
  | succ extra ih => exact ⟨⟨h, ih⟩, trivial⟩

theorem Alike.rep {a : Regex α} (h : a.Alike next next') (least extra : ℕ) :
    (a.rep least extra).Alike next next' := by
  induction least with
  | zero => exact h.upTo extra
  | succ least ih => exact ⟨h, ih⟩

/-- A match takes some characters, and takes them as well before any other rest that starts with
an alike character. -/
theorem ends_local (h : c' ∈ r.ends c) :
    ∃ taken, c.rest = taken ++ c'.rest ∧ c'.prev = before c.prev taken ∧
      ∀ rest', r.Alike c'.rest.head? rest'.head? →
        ⟨c'.prev, rest'⟩ ∈ r.ends ⟨c.prev, taken ++ rest'⟩ := by
  induction r generalizing c c' with
  | empty =>
      rw [List.mem_singleton.mp h]
      exact ⟨[], rfl, rfl, fun _ _ => List.mem_singleton_self _⟩
  | char p =>
      obtain ⟨x, hx, hrest, hprev⟩ := mem_ends_char.mp h
      exact ⟨[x], hrest, hprev, fun rest' _ => mem_ends_char.mpr ⟨x, hx, rfl, hprev⟩⟩
  | many p least =>
      obtain ⟨taken, hrest, hprev, hall, hlen⟩ := mem_ends_many.mp h
      exact ⟨taken, hrest, hprev,
        fun rest' _ => mem_ends_many.mpr ⟨taken, rfl, hprev, hall, hlen⟩⟩
  | seq a b iha ihb =>
      obtain ⟨c₁, hc₁, hc'⟩ := mem_ends_seq.mp h
      obtain ⟨first, hrest, hprev, hfirst⟩ := iha hc₁
      obtain ⟨second, hrest₁, hprev₁, hsecond⟩ := ihb hc'
      refine ⟨first ++ second, ?_, ?_, ?_⟩
      · rw [hrest, hrest₁, List.append_assoc]
      · rw [hprev₁, hprev, before_append]
      · intro rest' halike
        have hnext : a.Alike c₁.rest.head? (second ++ rest').head? := by
          rw [hrest₁]
          cases second with
          | nil => exact halike.1
          | cons x second => exact Alike.refl a (some x)
        rw [List.append_assoc]
        exact mem_ends_seq.mpr ⟨_, hfirst _ hnext, hsecond rest' halike.2⟩
  | alt a b iha ihb =>
      cases mem_ends_alt.mp h with
      | inl h =>
          obtain ⟨taken, hrest, hprev, hends⟩ := iha h
          exact ⟨taken, hrest, hprev,
            fun rest' halike => mem_ends_alt.mpr (.inl (hends rest' halike.1))⟩
      | inr h =>
          obtain ⟨taken, hrest, hprev, hends⟩ := ihb h
          exact ⟨taken, hrest, hprev,
            fun rest' halike => mem_ends_alt.mpr (.inr (hends rest' halike.2))⟩
  | look p =>
      obtain ⟨hp, rfl⟩ := mem_ends_look.mp h
      refine ⟨[], rfl, rfl, fun rest' halike => mem_ends_look.mpr ⟨?_, rfl⟩⟩
      exact (halike c'.prev).symm.trans hp

theorem taken_seq {a b : Regex α} {taken : List α} (hc : c' ∈ (a.seq b).ends c)
    (hrest : c.rest = taken ++ c'.rest) :
    ∃ c₁ first second, c₁ ∈ a.ends c ∧ c' ∈ b.ends c₁ ∧ c.rest = first ++ c₁.rest ∧
      c₁.rest = second ++ c'.rest ∧ taken = first ++ second := by
  obtain ⟨c₁, hc₁, hc'⟩ := mem_ends_seq.mp hc
  obtain ⟨first, hfirst, _⟩ := ends_local hc₁
  obtain ⟨second, hsecond, _⟩ := ends_local hc'
  refine ⟨c₁, first, second, hc₁, hc', hfirst, hsecond, ?_⟩
  have hboth : taken ++ c'.rest = (first ++ second) ++ c'.rest := by
    rw [← hrest, hfirst, hsecond, List.append_assoc]
  exact List.append_cancel_right hboth

end Locality

section Taken
variable {P : α → Prop} {r a b : Regex α} {c c' : Cursor α}

/-- Every character that an expression takes has a property. -/
def TakesOnly (P : α → Prop) : Regex α → Prop
  | empty => True
  | char p => ∀ x, p x = true → P x
  | many p _ => ∀ x, p x = true → P x
  | seq a b => TakesOnly P a ∧ TakesOnly P b
  | alt a b => TakesOnly P a ∧ TakesOnly P b
  | look _ => True

theorem TakesOnly.mono {Q : α → Prop} (h : r.TakesOnly P) (hPQ : ∀ x, P x → Q x) :
    r.TakesOnly Q := by
  induction r with
  | empty | look _ => trivial
  | char p | many p least => exact fun x hx => hPQ x (h x hx)
  | seq a b iha ihb | alt a b iha ihb => exact ⟨iha h.1, ihb h.2⟩

theorem TakesOnly.opt (h : a.TakesOnly P) : a.opt.TakesOnly P :=
  ⟨h, trivial⟩

theorem TakesOnly.upTo (h : a.TakesOnly P) (extra : ℕ) : (a.upTo extra).TakesOnly P := by
  induction extra with
  | zero => trivial
  | succ extra ih =>
      have hseq : (seq a (a.upTo extra)).TakesOnly P := ⟨h, ih⟩
      exact hseq.opt

theorem TakesOnly.rep (h : a.TakesOnly P) (least extra : ℕ) : (a.rep least extra).TakesOnly P := by
  induction least with
  | zero => exact h.upTo extra
  | succ least ih => exact ⟨h, ih⟩

theorem TakesOnly.ends (h : r.TakesOnly P) (hc : c' ∈ r.ends c) {taken : List α}
    (hrest : c.rest = taken ++ c'.rest) : ∀ x ∈ taken, P x := by
  induction r generalizing c c' taken with
  | empty =>
      rw [List.mem_singleton.mp hc] at hrest
      rw [List.self_eq_append_left.mp hrest]
      exact fun _ hx => absurd hx List.not_mem_nil
  | char p =>
      obtain ⟨x, hx, hrest', _⟩ := mem_ends_char.mp hc
      have htaken : taken = [x] := List.append_cancel_right (hrest.symm.trans hrest')
      rw [htaken]
      exact List.forall_mem_singleton.mpr (h x hx)
  | many p least =>
      obtain ⟨taken', hrest', _, hall, _⟩ := mem_ends_many.mp hc
      rw [List.append_cancel_right (hrest.symm.trans hrest')]
      exact fun x hx => h x (hall x hx)
  | seq a b iha ihb =>
      obtain ⟨c₁, first, second, hc₁, hc', hfirst, hsecond, htaken⟩ := taken_seq hc hrest
      rw [htaken]
      exact List.forall_mem_append.mpr ⟨iha h.1 hc₁ hfirst, ihb h.2 hc' hsecond⟩
  | alt a b iha ihb =>
      cases mem_ends_alt.mp hc with
      | inl hc => exact iha h.1 hc hrest
      | inr hc => exact ihb h.2 hc hrest
  | look p =>
      rw [(mem_ends_look.mp hc).2] at hrest
      rw [List.self_eq_append_left.mp hrest]
      exact fun _ hx => absurd hx List.not_mem_nil

end Taken

section Weights
variable {w : α → ℕ} {r a b : Regex α} {c c' : Cursor α} {k : ℕ}

def weight (w : α → ℕ) (text : List α) : ℕ := (text.map w).sum

@[simp] theorem weight_nil (w : α → ℕ) : weight w [] = 0 := rfl

@[simp] theorem weight_cons (w : α → ℕ) (x : α) (text : List α) :
    weight w (x :: text) = w x + weight w text := by
  simp [weight]

@[simp] theorem weight_append (w : α → ℕ) (text text' : List α) :
    weight w (text ++ text') = weight w text + weight w text' := by
  simp [weight]

theorem le_weight {text : List α} (h : ∀ x ∈ text, k ≤ w x) : text.length * k ≤ weight w text := by
  induction text with
  | nil => rw [List.length_nil, Nat.zero_mul, weight_nil]
  | cons x text ih =>
      obtain ⟨hx, htext⟩ := List.forall_mem_cons.mp h
      have hrest := ih htext
      rw [List.length_cons, Nat.succ_mul, weight_cons]
      omega

/-- What each match of an expression weighs at least. -/
def WeighsAtLeast (w : α → ℕ) (r : Regex α) (k : ℕ) : Prop :=
  ∀ c, ∀ c' ∈ r.ends c, weight w c'.rest + k ≤ weight w c.rest

namespace WeighsAtLeast

theorem mono {l : ℕ} (h : WeighsAtLeast w r k) (hle : l ≤ k) : WeighsAtLeast w r l := by
  intro c c' hc'
  have hk := h c c' hc'
  omega

theorem empty (w : α → ℕ) : WeighsAtLeast w empty 0 := by
  intro c c' hc'
  rw [List.mem_singleton.mp hc']
  exact le_refl _

theorem look (w : α → ℕ) (p : Option α → Option α → Bool) : WeighsAtLeast w (look p) 0 := by
  intro c c' hc'
  rw [(mem_ends_look.mp hc').2]
  exact le_refl _

theorem char {p : α → Bool} (h : ∀ x, p x = true → k ≤ w x) : WeighsAtLeast w (char p) k := by
  intro c c' hc'
  obtain ⟨x, hx, hrest, _⟩ := mem_ends_char.mp hc'
  have hone := h x hx
  rw [hrest, weight_cons]
  omega

theorem many {p : α → Bool} (h : ∀ x, p x = true → k ≤ w x) (least : ℕ) :
    WeighsAtLeast w (many p least) (least * k) := by
  intro c c' hc'
  obtain ⟨taken, hrest, _, hall, hlen⟩ := mem_ends_many.mp hc'
  have htaken := le_weight fun x hx => h x (hall x hx)
  have hleast := Nat.mul_le_mul_right k hlen
  rw [hrest, weight_append]
  omega

theorem seq {l : ℕ} (ha : WeighsAtLeast w a k) (hb : WeighsAtLeast w b l) :
    WeighsAtLeast w (seq a b) (k + l) := by
  intro c c' hc'
  obtain ⟨c₁, hc₁, hc'⟩ := mem_ends_seq.mp hc'
  have hfirst := ha c c₁ hc₁
  have hsecond := hb c₁ c' hc'
  omega

theorem alt (ha : WeighsAtLeast w a k) (hb : WeighsAtLeast w b k) :
    WeighsAtLeast w (alt a b) k := by
  intro c c' hc'
  cases mem_ends_alt.mp hc' with
  | inl hc' => exact ha c c' hc'
  | inr hc' => exact hb c c' hc'

theorem zero (w : α → ℕ) (r : Regex α) : WeighsAtLeast w r 0 := by
  intro c c' hc'
  obtain ⟨taken, hrest, _⟩ := ends_local hc'
  rw [hrest, weight_append]
  omega

theorem rep (h : WeighsAtLeast w a k) (least extra : ℕ) :
    WeighsAtLeast w (a.rep least extra) (least * k) := by
  induction least with
  | zero =>
      rw [Nat.zero_mul]
      exact zero w _
  | succ least ih =>
      have hseq := h.seq ih
      rw [Nat.add_comm, ← Nat.succ_mul] at hseq
      exact hseq

theorem taken (h : WeighsAtLeast w r k) (hc : c' ∈ r.ends c) {taken : List α}
    (hrest : c.rest = taken ++ c'.rest) : k ≤ weight w taken := by
  have hk := h c c' hc
  rw [hrest, weight_append] at hk
  omega

end WeighsAtLeast

/-- Each match of an expression takes a character. -/
def Consuming (r : Regex α) : Prop :=
  WeighsAtLeast (fun _ => 1) r 1

theorem Consuming.taken_ne_nil (h : r.Consuming) (hc : c' ∈ r.ends c) {taken : List α}
    (hrest : c.rest = taken ++ c'.rest) : taken ≠ [] := by
  intro hnil
  have hone := h.taken hc hrest
  rw [hnil, weight_nil] at hone
  exact absurd hone (by decide)

end Weights

section Substitution
variable {r : Regex α} {replacement : List α} {c : Cursor α} {prev : Option α} {x : α}
  {taken rest text : List α} {n : ℕ}

theorem matchLength_eq_none : r.matchLength c = none ↔ ¬ r.Matches c := by
  rw [matchLength, Option.map_eq_none_iff, List.head?_eq_none_iff, Matches, not_not]

theorem matchLength_eq_some (h : r.matchLength c = some n) :
    ∃ taken c', c' ∈ r.ends c ∧ c.rest = taken ++ c'.rest ∧ c'.prev = before c.prev taken ∧
      taken.length = n := by
  obtain ⟨c', hfirst, hlen⟩ := Option.map_eq_some_iff.mp h
  have hc' := List.mem_of_head? hfirst
  obtain ⟨taken, hrest, hprev, _⟩ := ends_local hc'
  refine ⟨taken, c', hc', hrest, hprev, ?_⟩
  rw [← hlen, hrest, List.length_append, Nat.add_sub_cancel]

theorem subFrom_skip (taken : List α) :
    subFrom r replacement taken.length prev (taken ++ rest) =
      subFrom r replacement 0 (before prev taken) rest := by
  induction taken generalizing prev with
  | nil => rfl
  | cons x taken ih => exact ih

theorem subFrom_kept (h : ¬ r.Matches ⟨prev, x :: rest⟩) :
    subFrom r replacement 0 prev (x :: rest) = x :: subFrom r replacement 0 (some x) rest := by
  rw [subFrom, matchLength_eq_none.mpr h]

theorem subFrom_found (hlen : r.matchLength ⟨prev, taken ++ rest⟩ = some taken.length)
    (hne : taken ≠ []) :
    subFrom r replacement 0 prev (taken ++ rest) =
      replacement ++ subFrom r replacement 0 (before prev taken) rest := by
  cases taken with
  | nil => exact absurd rfl hne
  | cons x taken =>
      rw [List.cons_append] at hlen ⊢
      rw [subFrom, hlen]
      exact congrArg (replacement ++ ·) (subFrom_skip taken)

theorem scan_induction (hr : r.Consuming) {motive : Option α → List α → Prop}
    (done : ∀ prev, motive prev [])
    (kept : ∀ prev x rest, ¬ r.Matches ⟨prev, x :: rest⟩ → motive (some x) rest →
      motive prev (x :: rest))
    (found : ∀ prev taken rest, taken ≠ [] →
      ⟨before prev taken, rest⟩ ∈ r.ends ⟨prev, taken ++ rest⟩ →
        r.matchLength ⟨prev, taken ++ rest⟩ = some taken.length → motive (before prev taken) rest →
          motive prev (taken ++ rest))
    (prev : Option α) (text : List α) : motive prev text := by
  induction hlen : text.length using Nat.strong_induction_on generalizing prev text with
  | h length ih =>
      cases text with
      | nil => exact done prev
      | cons x rest =>
          cases hmatch : r.matchLength ⟨prev, x :: rest⟩ with
          | none =>
              have hshort : rest.length < length := by
                rw [← hlen, List.length_cons]
                exact Nat.lt_succ_self _
              exact kept prev x rest (matchLength_eq_none.mp hmatch) (ih _ hshort (some x) rest rfl)
          | some n =>
              obtain ⟨taken, c', hc', hsplit, hprev, hn⟩ := matchLength_eq_some hmatch
              have hne := hr.taken_ne_nil hc' hsplit
              change x :: rest = taken ++ c'.rest at hsplit
              have hpos := List.length_pos_iff.mpr hne
              have hends : c' = ⟨before prev taken, c'.rest⟩ := by rw [← hprev]
              have hshort : c'.rest.length < length := by
                rw [← hlen, hsplit, List.length_append]
                omega
              rw [hends] at hc'
              rw [hsplit] at hc' hmatch ⊢
              exact found prev taken c'.rest hne hc' (hn ▸ hmatch)
                (ih _ hshort (before prev taken) c'.rest rfl)

theorem head?_subFrom (r : Regex α) (y : α) (replacement : List α) (prev : Option α)
    (text : List α) :
    (subFrom r (y :: replacement) 0 prev text).head? = text.head? ∨
      (subFrom r (y :: replacement) 0 prev text).head? = some y ∧ r.Matches ⟨prev, text⟩ := by
  cases text with
  | nil => exact .inl rfl
  | cons x rest =>
      by_cases h : r.Matches ⟨prev, x :: rest⟩
      · right
        refine ⟨?_, h⟩
        cases hmatch : r.matchLength ⟨prev, x :: rest⟩ with
        | none => exact absurd h (matchLength_eq_none.mp hmatch)
        | some n => rw [subFrom, hmatch]; rfl
      · left
        rw [subFrom_kept h]
        rfl

theorem subFrom_start {y : α} {out : List α}
    (h : subFrom r (y :: replacement) 0 prev text = taken ++ out) (hy : y ∉ taken) :
    ∃ rest, text = taken ++ rest ∧
      out = subFrom r (y :: replacement) 0 (before prev taken) rest := by
  induction taken generalizing prev text with
  | nil => exact ⟨text, rfl, h.symm⟩
  | cons x taken ih =>
      cases text with
      | nil => cases h
      | cons z rest =>
          cases hmatch : r.matchLength ⟨prev, z :: rest⟩ with
          | none =>
              rw [subFrom_kept (matchLength_eq_none.mp hmatch)] at h
              obtain ⟨rfl, hrest⟩ := List.cons.inj h
              obtain ⟨rest', hsplit, hout⟩ :=
                ih hrest fun hmem => hy (List.mem_cons_of_mem _ hmem)
              exact ⟨rest', congrArg (z :: ·) hsplit, hout⟩
          | some n =>
              rw [subFrom, hmatch] at h
              exact absurd (List.cons.inj h).1 (fun heq => hy (heq ▸ List.mem_cons_self))

/-- A match in the new text without an inserted text, before a character like the one that stood
there, is a match in the old text. -/
theorem matches_of_subFrom {q : Regex α} {y : α} {c' : Cursor α}
    (hc : c' ∈ q.ends ⟨prev, subFrom r (y :: replacement) 0 prev text⟩)
    (hy : ∀ taken, subFrom r (y :: replacement) 0 prev text = taken ++ c'.rest → y ∉ taken)
    (hnext : ∀ rest, c'.rest.head? = some y → r.Matches ⟨c'.prev, rest⟩ →
      q.Alike (some y) rest.head?) :
    q.Matches ⟨prev, text⟩ := by
  obtain ⟨taken, hsplit, hprev, hends⟩ := ends_local hc
  obtain ⟨rest, htext, hout⟩ := subFrom_start hsplit (hy taken hsplit)
  change c'.prev = before prev taken at hprev
  have halike : q.Alike c'.rest.head? rest.head? := by
    rw [← hprev] at hout
    cases head?_subFrom r y replacement c'.prev rest with
    | inl hsame =>
        rw [hout, hsame]
        exact Alike.refl q _
    | inr hfound =>
        have hhead : c'.rest.head? = some y := by
          rw [hout]
          exact hfound.1
        rw [hhead]
        exact hnext rest hhead hfound.2
  rw [htext]
  exact matches_iff.mpr ⟨_, hends rest halike⟩

end Substitution

section Cleanness
variable {r : Regex α} {prev prev' : Option α} {x : α} {left right rest text : List α}

theorem cleanFrom_nil (hr : r.Consuming) : r.CleanFrom prev [] := by
  intro left right hsplit h
  obtain ⟨_, rfl⟩ := List.append_eq_nil_iff.mp hsplit.symm
  obtain ⟨c', hc'⟩ := matches_iff.mp h
  obtain ⟨taken, hrest, _⟩ := ends_local hc'
  exact hr.taken_ne_nil hc' hrest (List.append_eq_nil_iff.mp hrest.symm).1

theorem CleanFrom.here (h : r.CleanFrom prev text) : ¬ r.Matches ⟨prev, text⟩ :=
  h [] text rfl

theorem CleanFrom.behind (h : r.CleanFrom prev (left ++ right)) :
    r.CleanFrom (before prev left) right := by
  intro left' right' hsplit
  rw [← before_append]
  apply h (left ++ left') right'
  rw [hsplit, List.append_assoc]

theorem CleanFrom.tail (h : r.CleanFrom prev (x :: rest)) : r.CleanFrom (some x) rest :=
  fun left right hsplit => h (x :: left) right (congrArg (x :: ·) hsplit)

theorem CleanFrom.cons (hx : ¬ r.Matches ⟨prev, x :: rest⟩) (h : r.CleanFrom (some x) rest) :
    r.CleanFrom prev (x :: rest) := by
  intro left right hsplit
  cases left with
  | nil =>
      rw [← show x :: rest = right from hsplit]
      exact hx
  | cons z left =>
      obtain ⟨rfl, hrest⟩ := List.cons.inj hsplit
      exact h left right hrest

theorem CleanFrom.change (hr : r.Consuming) (hhere : ¬ r.Matches ⟨prev', text⟩)
    (h : r.CleanFrom prev text) : r.CleanFrom prev' text := by
  cases text with
  | nil => exact cleanFrom_nil hr
  | cons x rest => exact .cons hhere (CleanFrom.tail h)

theorem CleanFrom.subFrom_eq (replacement : List α) (h : r.CleanFrom prev text) :
    subFrom r replacement 0 prev text = text := by
  induction text generalizing prev with
  | nil => rfl
  | cons x rest ih =>
      rw [subFrom_kept h.here, ih (CleanFrom.tail h)]

theorem Clean.sub_eq (replacement : List α) (h : r.Clean text) :
    r.sub replacement text = text :=
  CleanFrom.subFrom_eq replacement h

end Cleanness

end Regex

end Engramia.Library
