import Mathlib.Data.List.Sort

/-!
Rankings: stable sorting by a key, the highest first. What is ranked already stays as it is, so
a ranking is determined by how its keys compare, and a part of a ranking is ranked.
-/
namespace Engramia.Library

universe u v w
variable {α : Type u} {β : Type v} {κ : Type w} [LinearOrder κ]

/-- `sort` with `reverse`, which keeps the order of equal keys. -/
def sortedDesc (key : α → κ) (l : List α) : List α :=
  l.insertionSort fun a b => key b ≤ key a

def Ranked (key : α → κ) (l : List α) : Prop :=
  l.Pairwise fun a b => key b ≤ key a

variable {key : α → κ} {l l' : List α}

theorem sortedDesc_perm (key : α → κ) (l : List α) : (sortedDesc key l).Perm l :=
  List.perm_insertionSort _ _

theorem mem_sortedDesc {a : α} : a ∈ sortedDesc key l ↔ a ∈ l :=
  (sortedDesc_perm key l).mem_iff

theorem length_sortedDesc : (sortedDesc key l).length = l.length :=
  (sortedDesc_perm key l).length_eq

theorem ranked_sortedDesc (key : α → κ) (l : List α) : Ranked key (sortedDesc key l) := by
  have htotal : Std.Total fun a b : α => key b ≤ key a := ⟨fun a b => le_total _ _⟩
  have htrans : IsTrans α fun a b => key b ≤ key a := ⟨fun _ _ _ h h' => h'.trans h⟩
  exact List.pairwise_insertionSort _ _

theorem Ranked.sortedDesc_eq (h : Ranked key l) : sortedDesc key l = l :=
  List.Pairwise.insertionSort_eq h

theorem sortedDesc_map (f : β → α) (l : List β) :
    sortedDesc key (l.map f) = (sortedDesc (key ∘ f) l).map f :=
  (List.map_insertionSort _ _ f l fun _ _ _ _ => Iff.rfl).symm

theorem orderedInsert_eq_cons {a : α} (h : ∀ b ∈ l, key b ≤ key a) :
    l.orderedInsert (fun a b => key b ≤ key a) a = a :: l := by
  cases l with
  | nil => rfl
  | cons b l => exact List.orderedInsert_cons_of_le _ l (h b List.mem_cons_self)

theorem filter_orderedInsert (p : α → Bool) {a : α} (h : Ranked key l) :
    (l.orderedInsert (fun a b => key b ≤ key a) a).filter p =
      if p a then (l.filter p).orderedInsert (fun a b => key b ≤ key a) a else l.filter p := by
  induction l with
  | nil => cases hp : p a <;> simp [hp]
  | cons b l ih =>
      obtain ⟨hb, hl⟩ := List.pairwise_cons.mp h
      by_cases hle : key b ≤ key a
      · have hall : ∀ c ∈ (b :: l).filter p, key c ≤ key a := by
          intro c hc
          cases List.mem_cons.mp (List.mem_of_mem_filter hc) with
          | inl heq => exact heq ▸ hle
          | inr hmem => exact (hb c hmem).trans hle
        rw [List.orderedInsert_cons_of_le _ l hle, orderedInsert_eq_cons hall, List.filter_cons]
      · rw [List.orderedInsert_of_not_le _ l hle, List.filter_cons, List.filter_cons, ih hl]
        cases hpb : p b with
        | false => simp
        | true =>
            have hinsert := List.orderedInsert_of_not_le (fun a b => key b ≤ key a)
              (l.filter p) hle
            simp only [if_true, hinsert]
            split <;> rfl

theorem filter_sortedDesc (p : α → Bool) (l : List α) :
    (sortedDesc key l).filter p = sortedDesc key (l.filter p) := by
  induction l with
  | nil => rfl
  | cons a l ih =>
      have hinsert : sortedDesc key (a :: l) =
          (sortedDesc key l).orderedInsert (fun a b => key b ≤ key a) a := rfl
      rw [hinsert, filter_orderedInsert p (ranked_sortedDesc key l), ih, List.filter_cons]
      split <;> rfl

theorem Ranked.sublist (h : Ranked key l) (hl : l'.Sublist l) : Ranked key l' :=
  List.Pairwise.sublist hl h

theorem Ranked.filterMap {f : α → Option β} {key' : β → κ} (h : Ranked key l)
    (hf : ∀ a a' b b', f a = some b → f a' = some b' → key a' ≤ key a → key' b' ≤ key' b) :
    Ranked key' (l.filterMap f) := by
  rw [Ranked, List.pairwise_filterMap]
  apply h.imp
  intro a a' hle b hb b' hb'
  exact hf a a' b b' hb hb' hle

theorem Ranked.map {f : α → β} {key' : β → κ} (h : Ranked key l)
    (hf : ∀ a a', key a' ≤ key a → key' (f a') ≤ key' (f a)) : Ranked key' (l.map f) := by
  rw [Ranked, List.pairwise_map]
  apply h.imp
  intro a a' hle
  exact hf a a' hle

section Cuts
variable {p : α → Bool} {n : ℕ}

theorem length_filter_take_le (p : α → Bool) (n : ℕ) (l : List α) :
    ((l.take n).filter p).length ≤ n :=
  (List.length_filter_le p _).trans (List.length_take_le n l)

/-- What is selected first and cut then begins with what is cut first. -/
theorem take_filter_eq (p : α → Bool) (n : ℕ) (l : List α) :
    (l.filter p).take n = (l.take n).filter p ++
      ((l.drop n).filter p).take (n - ((l.take n).filter p).length) := by
  have hsplit : l.filter p = (l.take n).filter p ++ (l.drop n).filter p := by
    rw [← List.filter_append, List.take_append_drop]
  rw [hsplit, List.take_append, List.take_of_length_le (length_filter_take_le p n l)]

/-- A cut before a selection loses nothing exactly if it takes only what is selected, or leaves
nothing of it behind. -/
theorem filter_take_eq_iff : (l.take n).filter p = (l.filter p).take n ↔
    (∀ a ∈ l.take n, p a = true) ∨ ∀ a ∈ l.drop n, p a = false := by
  rw [take_filter_eq, List.self_eq_append_right, List.take_eq_nil_iff, Nat.sub_eq_zero_iff_le]
  constructor
  · intro h
    cases h with
    | inl hfull =>
        refine .inl (List.length_filter_eq_length_iff.mp ?_)
        exact Nat.le_antisymm (List.length_filter_le p _) ((List.length_take_le n l).trans hfull)
    | inr hnone =>
        refine .inr fun a ha => ?_
        exact Bool.eq_false_of_not_eq_true (List.filter_eq_nil_iff.mp hnone a ha)
  · intro h
    cases h with
    | inl hall =>
        rw [List.filter_eq_self.mpr hall, List.length_take]
        by_cases hlong : n ≤ l.length
        · exact .inl (Nat.le_of_eq (Nat.min_eq_left hlong).symm)
        · rw [List.drop_of_length_le (Nat.le_of_not_le hlong)]
          exact .inr rfl
    | inr hnone =>
        refine .inr (List.filter_eq_nil_iff.mpr fun a ha => ?_)
        rw [hnone a ha]
        exact Bool.false_ne_true

theorem filter_take_eq_iff_of_perm (hperm : l'.Perm l) :
    (l.take n).filter p = (l'.filter p).take n ↔
      ((∀ a ∈ l.take n, p a = true) ∨ ∀ a ∈ l.drop n, p a = false) ∧
        (l.filter p).take n = (l'.filter p).take n := by
  rw [← filter_take_eq_iff]
  constructor
  · intro h
    have hlength : ((l.take n).filter p).length = ((l.filter p).take n).length := by
      rw [h, List.length_take, List.length_take, (hperm.filter p).length_eq]
    have hsame : (l.take n).filter p = (l.filter p).take n := by
      rw [take_filter_eq, List.length_append, Nat.left_eq_add, List.length_eq_zero_iff] at hlength
      rw [take_filter_eq, hlength, List.append_nil]
    exact ⟨hsame, hsame.symm.trans h⟩
  · intro h
    exact h.1.trans h.2

end Cuts

section Parts
variable {γ : Type w} {id : α → γ} {l₁ l₂ : List α}

theorem take_eq_of_sublist (hnodup : (l.map id).Nodup) (h : l'.Sublist l) {n : ℕ}
    (hbegin : ∀ a ∈ l.take n, a ∈ l') : l'.take n = l.take n := by
  induction h generalizing n with
  | slnil => rfl
  | @cons l₁ l₂ a h _ =>
      obtain ⟨ha, _⟩ := List.nodup_cons.mp hnodup
      cases n with
      | zero => rfl
      | succ n =>
          have hmem := hbegin a (by rw [List.take_succ_cons]; exact List.mem_cons_self)
          exact absurd (List.mem_map_of_mem (h.subset hmem)) ha
  | @cons_cons l₁ l₂ a h ih =>
      obtain ⟨ha, hl⟩ := List.nodup_cons.mp hnodup
      cases n with
      | zero => rfl
      | succ n =>
          rw [List.take_succ_cons, List.take_succ_cons]
          apply congrArg (a :: ·)
          apply ih hl
          intro b hb
          have hmem := hbegin b (by rw [List.take_succ_cons]; exact List.mem_cons_of_mem _ hb)
          cases List.mem_cons.mp hmem with
          | inl heq => exact absurd (List.mem_map_of_mem (List.mem_of_mem_take (heq ▸ hb))) ha
          | inr hmem => exact hmem

variable [BEq γ] [LawfulBEq γ]

/-- A part of a list of distinct identities is what has its identities. -/
theorem sublist_eq_filter (h : l'.Sublist l) (hnodup : (l.map id).Nodup) :
    l' = l.filter fun a => id a ∈ l'.map id := by
  induction h with
  | slnil => rfl
  | @cons l₁ l₂ a h ih =>
      obtain ⟨ha, hl⟩ := List.nodup_cons.mp hnodup
      have hout : id a ∉ l₁.map id := fun hmem => ha ((h.map id).subset hmem)
      rw [List.filter_cons_of_neg (by simpa using hout)]
      exact ih hl
  | @cons_cons l₁ l₂ a h ih =>
      obtain ⟨ha, hl⟩ := List.nodup_cons.mp hnodup
      have hrest : l₂.filter (fun b => id b ∈ (a :: l₁).map id) =
          l₂.filter fun b => id b ∈ l₁.map id := by
        apply List.filter_congr
        intro b hb
        have hne : id b ≠ id a := fun heq => ha (heq ▸ List.mem_map_of_mem hb)
        simp [hne]
      rw [List.filter_cons_of_pos (by simp), hrest, ← ih hl]

/-- Two parts of such a list with the same elements are the same. -/
theorem eq_of_sublist_of_mem_iff (hnodup : (l.map id).Nodup) (h₁ : l₁.Sublist l)
    (h₂ : l₂.Sublist l) (hmem : ∀ a, a ∈ l₁ ↔ a ∈ l₂) : l₁ = l₂ := by
  rw [sublist_eq_filter h₁ hnodup, sublist_eq_filter h₂ hnodup]
  apply List.filter_congr
  intro a _
  rw [decide_eq_decide]
  simp only [List.mem_map, hmem]

theorem sortedDesc_sublist (id : α → γ) (hnodup : (l.map id).Nodup) (h : l'.Sublist l) :
    (sortedDesc key l').Sublist (sortedDesc key l) := by
  rw [sublist_eq_filter h hnodup, ← filter_sortedDesc]
  exact List.filter_sublist

end Parts

end Engramia.Library
