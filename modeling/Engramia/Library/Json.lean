import Mathlib.Data.List.Basic
import Mathlib.Data.Rat.Defs

/-!
JSON documents over a type of texts, with the access to the fields of an object and the
replacement of a value at a path of keys.
-/
namespace Engramia.Library

universe u v

theorem lookup_cons_ite {κ : Type u} {ν : Type v} [BEq κ] [LawfulBEq κ] [DecidableEq κ]
    (k : κ) (x : κ × ν) (entries : List (κ × ν)) :
    (x :: entries).lookup k = if k = x.1 then some x.2 else entries.lookup k := by
  rw [List.lookup_cons]
  by_cases hk : k = x.1
  · simp [hk]
  · have hk' : (k == x.1) = false := beq_eq_false_iff_ne.mpr hk
    rw [hk', if_neg hk]

inductive Json (σ : Type u) where
  | null
  | bool (b : Bool)
  | int (n : Int)
  | num (q : ℚ)
  | str (s : σ)
  | arr (items : List (Json σ))
  | obj (fields : List (σ × Json σ))

namespace Json
variable {σ : Type u} [DecidableEq σ] {fields : List (σ × Json σ)} {k k' : σ} {v : Json σ}

def get? (k : σ) : Json σ → Option (Json σ)
  | .obj fields => fields.lookup k
  | _ => none

def text? : Json σ → Option σ
  | .str s => some s
  | _ => none

def fields? : Json σ → Option (List (σ × Json σ))
  | .obj fields => some fields
  | _ => none

/-- `fields[k] = v` -/
def assign (k : σ) (v : Json σ) : List (σ × Json σ) → List (σ × Json σ)
  | [] => [(k, v)]
  | x :: fields => if x.1 = k then (k, v) :: fields else x :: assign k v fields

/-- The value at a path of keys is replaced, or added to an object that is there. A key does
not name an item of an array, and below a scalar there is nothing. -/
def setPath (v : Json σ) : List σ → Json σ → Option (Json σ)
  | [], target => some target
  | [k], .obj fields => some (.obj (assign k v fields))
  | k :: rest, .obj fields =>
      match fields.lookup k with
      | none => some (.obj fields)
      | some child => (setPath v rest child).map fun child => .obj (assign k child fields)
  | _, .arr _ => none
  | _, scalar => some scalar

theorem lookup_assign (k k' : σ) (v : Json σ) (fields : List (σ × Json σ)) :
    (assign k v fields).lookup k' = if k' = k then some v else fields.lookup k' := by
  induction fields with
  | nil => rw [assign, lookup_cons_ite]
  | cons x fields ih =>
      rw [assign]
      by_cases hx : x.1 = k
      · rw [if_pos hx, lookup_cons_ite, lookup_cons_ite, hx]
        by_cases hk : k' = k
        · rw [if_pos hk, if_pos hk]
        · rw [if_neg hk, if_neg hk, if_neg hk]
      · rw [if_neg hx, lookup_cons_ite, lookup_cons_ite, ih]
        by_cases hk : k' = k
        · have hx' : k' ≠ x.1 := fun h => hx (h.symm.trans hk)
          rw [if_neg hx', if_pos hk, if_pos hk]
        · rw [if_neg hk, if_neg hk]

theorem get?_assign : (obj (assign k v fields)).get? k' =
    if k' = k then some v else (obj fields).get? k' :=
  lookup_assign k k' v fields

theorem get?_mapped {α : Type u} (f : α → Json σ) (entries : List (σ × α)) (k : σ) :
    (obj (entries.map fun x => (x.1, f x.2))).get? k =
      ((entries.find? fun x => x.1 = k).map Prod.snd).map f := by
  rw [get?]
  induction entries with
  | nil => rfl
  | cons x entries ih =>
      rw [List.map_cons, lookup_cons_ite, List.find?_cons, ih]
      by_cases hk : k = x.1
      · simp [hk]
      · simp [hk, Ne.symm hk]

variable (k' v) in
/-- A value that is set in an object of an object, whose other fields stay. -/
theorem setPath_pair {target : Json σ} {inner : List (σ × Json σ)}
    (h : target.get? k = some (.obj inner)) :
    ∃ outer, setPath v [k, k'] target = some (.obj outer) ∧
      (obj outer).get? k = some (.obj (assign k' v inner)) ∧
      ∀ i, i ≠ k → (obj outer).get? i = target.get? i := by
  cases target with
  | obj fields =>
      refine ⟨assign k (.obj (assign k' v inner)) fields, ?_, ?_, ?_⟩
      · rw [setPath]
        · rw [show fields.lookup k = some (.obj inner) from h]
          rfl
        · simp
      · rw [get?_assign, if_pos rfl]
      · intro i hi
        rw [get?_assign, if_neg hi]
  | _ => cases h

section Equality
variable {σ : Type u} [DecidableEq σ]

mutual

/-- Equality of two documents. -/
def same : Json σ → Json σ → Bool
  | .null, .null => true
  | .bool a, .bool b => a == b
  | .int a, .int b => a == b
  | .num a, .num b => a == b
  | .str a, .str b => a == b
  | .arr as, .arr bs => sameItems as bs
  | .obj as, .obj bs => sameFields as bs
  | _, _ => false

def sameItems : List (Json σ) → List (Json σ) → Bool
  | [], [] => true
  | a :: as, b :: bs => same a b && sameItems as bs
  | _, _ => false

def sameFields : List (σ × Json σ) → List (σ × Json σ) → Bool
  | [], [] => true
  | (k, a) :: as, (k', b) :: bs => k == k' && same a b && sameFields as bs
  | _, _ => false

end

mutual

theorem same_iff (a b : Json σ) : same a b = true ↔ a = b := by
  cases a with
  | null | bool _ | int _ | num _ | str _ => cases b <;> simp [same]
  | arr as =>
      cases b with
      | arr bs => rw [same, sameItems_iff as bs, arr.injEq]
      | _ => simp [same]
  | obj as =>
      cases b with
      | obj bs => rw [same, sameFields_iff as bs, obj.injEq]
      | _ => simp [same]

theorem sameItems_iff (as bs : List (Json σ)) : sameItems as bs = true ↔ as = bs := by
  cases as with
  | nil => cases bs <;> simp [sameItems]
  | cons a as =>
      cases bs with
      | nil => simp [sameItems]
      | cons b bs =>
          rw [sameItems, Bool.and_eq_true, same_iff a b, sameItems_iff as bs, List.cons.injEq]

theorem sameFields_iff (as bs : List (σ × Json σ)) : sameFields as bs = true ↔ as = bs := by
  cases as with
  | nil => cases bs <;> simp [sameFields]
  | cons x as =>
      obtain ⟨k, a⟩ := x
      cases bs with
      | nil => simp [sameFields]
      | cons y bs =>
          obtain ⟨k', b⟩ := y
          rw [sameFields, Bool.and_eq_true, Bool.and_eq_true, beq_iff_eq, same_iff a b,
            sameFields_iff as bs, List.cons.injEq, Prod.mk.injEq]

end

instance decidableEq : DecidableEq (Json σ) :=
  fun a b => decidable_of_iff _ (same_iff a b)

end Equality

end Json

end Engramia.Library
