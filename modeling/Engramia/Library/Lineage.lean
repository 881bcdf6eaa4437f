import Mathlib.Data.List.Induction

/-!
Links from an item to what replaced it, oldest first. An item that a link leads to is new
when the link is added, so one pass over the links finds all that descends from an item.
-/
namespace Engramia.Library

universe u
variable {α : Type u} [DecidableEq α]

/-- What descends from an item, the item included. -/
def descendants (links : List (α × α)) (a : α) : List α :=
  links.foldl (fun found l => if l.1 ∈ found then found ++ [l.2] else found) [a]

variable {links : List (α × α)} {a b c d : α}

theorem descendants_append :
    descendants (links ++ [(b, c)]) a =
      if b ∈ descendants links a then descendants links a ++ [c] else descendants links a := by
  rw [descendants, List.foldl_append]
  rfl

theorem mem_descendants_append :
    d ∈ descendants (links ++ [(b, c)]) a ↔
      d ∈ descendants links a ∨ b ∈ descendants links a ∧ d = c := by
  rw [descendants_append]
  by_cases hb : b ∈ descendants links a
  · rw [if_pos hb, List.mem_append, List.mem_singleton]
    exact or_congr Iff.rfl (and_iff_right hb).symm
  · rw [if_neg hb]
    exact (or_iff_left fun h => hb h.1).symm

/-- What holds of an item, and of whatever replaces what it holds of, holds of all that
descends from the item. -/
theorem descendants_induction {P : α → Prop} (ha : P a)
    (hlink : ∀ l ∈ links, P l.1 → P l.2) : ∀ d ∈ descendants links a, P d := by
  induction links using List.reverseRecOn with
  | nil =>
      intro d hd
      rw [List.mem_singleton.mp hd]
      exact ha
  | append_singleton links l ih =>
      intro d hd
      have hold := ih fun x hx => hlink x (List.mem_append_left _ hx)
      cases mem_descendants_append.mp hd with
      | inl hd => exact hold d hd
      | inr hd =>
          rw [hd.2]
          exact hlink l (List.mem_append_right _ (List.mem_singleton_self l)) (hold l.1 hd.1)

theorem mem_descendants_self (links : List (α × α)) (a : α) : a ∈ descendants links a := by
  induction links using List.reverseRecOn with
  | nil => exact List.mem_singleton_self a
  | append_singleton links l ih => exact mem_descendants_append.mpr (.inl ih)

theorem eq_of_mem_descendants (h : ∀ l ∈ links, l.1 ≠ a) (hd : d ∈ descendants links a) :
    d = a :=
  descendants_induction (P := fun d => d = a) rfl (fun l hl heq => absurd heq (h l hl)) d hd

end Engramia.Library
