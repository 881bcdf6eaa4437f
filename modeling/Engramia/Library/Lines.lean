import Mathlib.Data.List.Infix

/-!
Texts of lines. A line is read when the character that ends it has arrived, so that of a text
that is cut off somewhere only the lines before the cut are read.
-/
namespace Engramia.Library.Lines
universe u
variable {α : Type u} [DecidableEq α]

/-- The ended lines of a text, where the characters of the current one are given. -/
def linesFrom (ends : α) : List α → List α → List (List α)
  | _, [] => []
  | current, c :: text =>
      if c = ends then current :: linesFrom ends [] text
      else linesFrom ends (current ++ [c]) text

def lines (ends : α) (text : List α) : List (List α) := linesFrom ends [] text

def unlines (ends : α) (texts : List (List α)) : List α := texts.flatMap fun text => text ++ [ends]

section Reading
variable {ends : α} {line text part : List α} {texts : List (List α)}

theorem linesFrom_line (h : ends ∉ line) (current : List α) :
    linesFrom ends current (line ++ text) = linesFrom ends (current ++ line) text := by
  induction line generalizing current with
  | nil => simp
  | cons c line ih =>
      simp only [List.mem_cons, not_or] at h
      rw [List.cons_append, linesFrom, if_neg (Ne.symm h.1), ih h.2, List.append_assoc]
      rfl

theorem lines_line (h : ends ∉ line) :
    lines ends (line ++ ends :: text) = line :: lines ends text := by
  rw [lines, linesFrom_line h, linesFrom, if_pos rfl]
  rfl

theorem lines_open (h : ends ∉ line) : lines ends line = [] := by
  have hline : linesFrom ends [] (line ++ []) = linesFrom ends ([] ++ line) [] :=
    linesFrom_line h []
  rw [List.append_nil] at hline
  exact hline

/-- A part that arrived is read as the first lines, and it is read as all of them only where
all arrived. -/
theorem lines_of_prefix (h : ∀ line ∈ texts, ends ∉ line) (hpart : part <+: unlines ends texts) :
    ∃ n ≤ texts.length, lines ends part = texts.take n ∧
      (n = texts.length ↔ part = unlines ends texts) := by
  induction texts generalizing part with
  | nil =>
      have hnil : part = [] := List.prefix_nil.mp hpart
      exact ⟨0, le_refl 0, by simp [hnil, lines, linesFrom], by simp [hnil, unlines]⟩
  | cons line texts ih =>
      have hline := h line List.mem_cons_self
      have htail : ∀ line ∈ texts, ends ∉ line := fun l hl => h l (List.mem_cons_of_mem line hl)
      have hunlines : unlines ends (line :: texts) = line ++ ends :: unlines ends texts := by
        simp [unlines]
      rw [hunlines] at hpart ⊢
      by_cases hlength : part.length ≤ line.length
      · have hin : part <+: line :=
          List.prefix_of_prefix_length_le hpart (List.prefix_append _ _) hlength
        have hopen : ends ∉ part := fun hmem => hline (hin.subset hmem)
        refine ⟨0, Nat.zero_le _, lines_open hopen, ?_⟩
        have hne : part ≠ line ++ ends :: unlines ends texts := by
          intro hall
          have := congrArg List.length hall
          simp only [List.length_append, List.length_cons] at this
          omega
        simp [hne]
      · obtain ⟨rest, hrest⟩ := List.prefix_of_prefix_length_le
          (List.prefix_append line (ends :: unlines ends texts)) hpart (by omega)
        rw [← hrest] at hpart hlength ⊢
        rw [List.prefix_append_right_inj] at hpart
        cases rest with
        | nil => exact absurd (by simp) hlength
        | cons c rest =>
            obtain ⟨hc, hpart⟩ := List.cons_prefix_cons.mp hpart
            obtain ⟨n, hn, hread, hiff⟩ := ih htail hpart
            refine ⟨n + 1, by simpa using hn, ?_, ?_⟩
            · rw [hc, lines_line hline, hread]
              rfl
            · rw [hc, List.length_cons, Nat.add_right_cancel_iff, hiff]
              simp

end Reading

end Engramia.Library.Lines
