import Engramia.Storage.Paths
import Engramia.Library.OrderedDict

/-!
The redaction pipeline. A hook scans a text and redacts it; the pipeline passes
every field through its hooks in order and redacts where a hook found something.

A hook removes what it detects, but the hooks after it may bring it back. What
the pipeline guarantees of a field is that it is clean exactly when they do not.
-/
namespace Engramia.Patterns
open Engramia.Library Engramia.Storage

structure Finding where
  field : Text
  kind : Text
  count : Nat

structure RedactionHook where
  scan : Text → List Finding
  redact : Text → Text

abbrev Fields := OrderedDict Text Text

/-- The text after one hook, redacted if the hook found something in it. -/
def RedactionHook.pass (hook : RedactionHook) (text : Text) : Text :=
  if (hook.scan text).isEmpty then text else hook.redact text

/-- The hooks in order over one field: the cleaned value and the findings. -/
def scanField (name : Text) : List RedactionHook → Text → Text × List Finding
  | [], value => (value, [])
  | hook :: hooks, value =>
      let found := (hook.scan value).map fun f => { f with field := name }
      let rest := scanField name hooks (hook.pass value)
      (rest.1, found ++ rest.2)

/-- `RedactionPipeline.process` -/
def process (hooks : List RedactionHook) (data extraFields : Fields) : Fields × List Finding :=
  if hooks.isEmpty then (data, [])
  else
    let cleaned := (data.update extraFields).mapValues fun name value =>
      if value.isEmpty then (value, []) else scanField name hooks value
    (cleaned.mapValues fun _ x => x.1, cleaned.entries.flatMap fun x => x.2.2)

/-- The pipeline does not scan empty texts. -/
def RedactionHook.detects (hook : RedactionHook) (text : Text) : Bool :=
  !text.isEmpty && !(hook.scan text).isEmpty

def Undetected (hooks : List RedactionHook) (text : Text) : Prop :=
  ∀ hook ∈ hooks, hook.detects text = false

def RedactionHook.Removes (hook : RedactionHook) : Prop :=
  ∀ text, hook.detects (hook.redact text) = false

/-- The value the pipeline keeps of a field. -/
def cleaned (hooks : List RedactionHook) (text : Text) : Text :=
  hooks.foldl (fun value hook => hook.pass value) text

/-- What a hook leaves clean, the hooks after it leave clean. -/
def Undisturbed : List RedactionHook → Text → Prop
  | [], _ => True
  | hook :: hooks, text =>
      (hook.detects (hook.pass text) = false →
        hook.detects (cleaned hooks (hook.pass text)) = false) ∧
      Undisturbed hooks (hook.pass text)

instance (hooks : List RedactionHook) (text : Text) : Decidable (Undetected hooks text) :=
  inferInstanceAs (Decidable (∀ hook ∈ hooks, _))

section Passes
variable {hook : RedactionHook} {hooks : List RedactionHook} {text name : Text}

theorem scanField_fst : (scanField name hooks text).1 = cleaned hooks text := by
  induction hooks generalizing text with
  | nil => rfl
  | cons hook hooks ih => exact ih

theorem RedactionHook.pass_of_undetected (h : hook.detects text = false) (hne : text ≠ []) :
    hook.scan text = [] ∧ hook.pass text = text := by
  have hscan : hook.scan text = [] := by simpa [detects, hne] using h
  rw [pass, hscan]
  exact ⟨rfl, rfl⟩

theorem scanField_snd_eq_nil (hne : text ≠ []) :
    (scanField name hooks text).2 = [] ↔ Undetected hooks text := by
  induction hooks with
  | nil =>
      constructor
      · intro _ hook h
        exact absurd h List.not_mem_nil
      · intro _
        rfl
  | cons hook hooks ih =>
      rw [scanField, List.append_eq_nil_iff, List.map_eq_nil_iff, Undetected,
        List.forall_mem_cons]
      constructor
      · intro h
        have hhook : hook.detects text = false := by simp [RedactionHook.detects, h.1]
        rw [(RedactionHook.pass_of_undetected hhook hne).2] at h
        exact ⟨hhook, ih.mp h.2⟩
      · intro h
        obtain ⟨hscan, hpass⟩ := RedactionHook.pass_of_undetected h.1 hne
        rw [hpass]
        exact ⟨hscan, ih.mpr h.2⟩

theorem cleaned_of_undetected (h : Undetected hooks text) :
    text ≠ [] → cleaned hooks text = text := by
  intro hne
  induction hooks with
  | nil => rfl
  | cons hook hooks ih =>
      rw [Undetected, List.forall_mem_cons] at h
      show cleaned hooks (hook.pass text) = text
      rw [(RedactionHook.pass_of_undetected h.1 hne).2]
      exact ih h.2

theorem RedactionHook.Removes.pass (h : hook.Removes) (text : Text) :
    hook.detects (hook.pass text) = false := by
  by_cases hscan : (hook.scan text).isEmpty = true
  · rw [RedactionHook.pass, if_pos hscan, detects, hscan]
    simp
  · rw [RedactionHook.pass, if_neg hscan]
    exact h text

theorem undetected_cleaned_iff (h : ∀ hook ∈ hooks, hook.Removes) :
    Undetected hooks (cleaned hooks text) ↔ Undisturbed hooks text := by
  induction hooks generalizing text with
  | nil =>
      constructor
      · intro _
        trivial
      · intro _ hook hmem
        exact absurd hmem List.not_mem_nil
  | cons hook hooks ih =>
      rw [List.forall_mem_cons] at h
      rw [Undetected, List.forall_mem_cons, Undisturbed]
      apply and_congr
      · constructor
        · intro hclean _
          exact hclean
        · intro hkeep
          exact hkeep (h.1.pass text)
      · exact ih h.2

theorem undisturbed_of_independent
    (h : ∀ hook ∈ hooks, ∀ other ∈ hooks, ∀ text,
      hook.detects text = false → hook.detects (other.redact text) = false)
    (text : Text) : Undisturbed hooks text := by
  induction hooks generalizing text with
  | nil => trivial
  | cons hook hooks ih =>
      refine ⟨?_, ih (fun g hg o ho => h g (List.mem_cons_of_mem _ hg) o
        (List.mem_cons_of_mem _ ho)) _⟩
      have hothers : ∀ other ∈ hooks, ∀ text, hook.detects text = false →
          hook.detects (other.redact text) = false :=
        fun other ho => h hook List.mem_cons_self other (List.mem_cons_of_mem _ ho)
      clear h ih
      intro hclean
      generalize hook.pass text = value at hclean
      induction hooks generalizing value with
      | nil => exact hclean
      | cons other hooks ih =>
          have hnext : hook.detects (other.pass value) = false := by
            by_cases hscan : (other.scan value).isEmpty = true
            · rw [RedactionHook.pass, if_pos hscan]
              exact hclean
            · rw [RedactionHook.pass, if_neg hscan]
              exact hothers other List.mem_cons_self value hclean
          exact ih (fun o ho => hothers o (List.mem_cons_of_mem _ ho)) _ hnext

end Passes

end Engramia.Patterns
