import Mathlib.Data.List.Basic
import Mathlib.Data.List.Perm.Basic

/-!
A register that operations overwrite without looking at it: its final value
is the last value written, or the first value when nothing writes. Reordering
the operations changes the final value exactly when it changes the last write.
-/
namespace Engramia.Library

universe u v
variable {α : Type u} {β : Type v} (write : α → Option β)

def writeAll (b : β) (ops : List α) : β :=
  ops.foldl (fun b op => (write op).getD b) b

def lastWrite (ops : List α) : Option β :=
  (ops.filterMap write).getLast?

@[simp] theorem writeAll_cons (b : β) (op : α) (ops : List α) :
    writeAll write b (op :: ops) = writeAll write ((write op).getD b) ops := rfl

theorem lastWrite_cons (op : α) (ops : List α) :
    lastWrite write (op :: ops) = (lastWrite write ops).or (write op) := by
  cases hop : write op with
  | none => simp [lastWrite, hop]
  | some b =>
      rw [lastWrite, List.filterMap_cons_some hop, List.getLast?_cons]
      rw [← lastWrite]
      cases lastWrite write ops <;> rfl

theorem writeAll_eq_lastWrite (b : β) (ops : List α) :
    writeAll write b ops = (lastWrite write ops).getD b := by
  induction ops generalizing b with
  | nil => rfl
  | cons op ops ih =>
      rw [writeAll_cons, ih, lastWrite_cons]
      cases lastWrite write ops with
      | some b' => rfl
      | none => rfl

theorem lastWrite_eq_none_iff {ops : List α} :
    lastWrite write ops = none ↔ ∀ op ∈ ops, write op = none := by
  rw [lastWrite, List.getLast?_eq_none_iff, List.filterMap_eq_nil_iff]

theorem lastWrite_isSome_of_perm {ops ops' : List α} (h : ops.Perm ops') :
    (lastWrite write ops).isSome = (lastWrite write ops').isSome := by
  rw [Bool.eq_iff_iff, Option.isSome_iff_ne_none, Option.isSome_iff_ne_none, ne_eq, ne_eq,
    lastWrite_eq_none_iff, lastWrite_eq_none_iff]
  simp only [h.mem_iff]

/-- Two orders of the same operations agree exactly on equal last writes. -/
theorem writeAll_eq_iff_of_perm {ops ops' : List α} (h : ops.Perm ops') (b : β) :
    writeAll write b ops = writeAll write b ops' ↔ lastWrite write ops = lastWrite write ops' := by
  have hsome := lastWrite_isSome_of_perm write h
  rw [writeAll_eq_lastWrite, writeAll_eq_lastWrite]
  cases hops : lastWrite write ops with
  | none =>
      cases hops' : lastWrite write ops' with
      | none => simp
      | some b' => simp [hops, hops'] at hsome
  | some c =>
      cases hops' : lastWrite write ops' with
      | none => simp [hops, hops'] at hsome
      | some c' => simp

end Engramia.Library
