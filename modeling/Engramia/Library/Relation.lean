import Mathlib.Data.List.Basic
import Mathlib.Data.List.Pairwise
import Mathlib.Data.List.Nodup

/-!
Single-table statements over a list of rows: conditional update, insert with
a conflict clause, first matching row, and uniqueness of a nullable column.

A null never conflicts with anything, as in SQL, so a column is a function
into `Option`. Row order is kept by updates and new rows go to the end; no
lemma below depends on more than that.
-/
namespace Engramia.Library

universe u v
variable {ρ : Type u} {κ : Type v}

/-- `UPDATE … SET f WHERE p`. -/
def updateWhere (p : ρ → Bool) (f : ρ → ρ) (rows : List ρ) : List ρ :=
  rows.map fun r => if p r then f r else r

/-- `INSERT … ON CONFLICT … DO UPDATE SET f`, where `p` selects the row the
new one conflicts with. -/
def insertOnConflict (p : ρ → Bool) (f : ρ → ρ) (new : ρ) (rows : List ρ) : List ρ :=
  if rows.any p then updateWhere p f rows else rows ++ [new]

/-- A `UNIQUE` constraint on a nullable column. -/
def UniqueOn (key : ρ → Option κ) (rows : List ρ) : Prop :=
  rows.Pairwise fun a b => key a = key b → key a = none

instance [DecidableEq κ] (key : ρ → Option κ) (rows : List ρ) :
    Decidable (UniqueOn key rows) :=
  inferInstanceAs (Decidable (rows.Pairwise _))

variable {p q : ρ → Bool} {f : ρ → ρ} {new : ρ} {rows : List ρ}

theorem updateWhere_eq_self (h : ∀ r ∈ rows, p r = true → f r = r) :
    updateWhere p f rows = rows := by
  have hmap : updateWhere p f rows = rows.map id := by
    apply List.map_congr_left
    intro r hr
    by_cases hp : p r = true
    · simp only [hp, if_true, h r hr hp, id_eq]
    · simp only [hp, Bool.false_eq_true, if_false, id_eq]
  rw [hmap, List.map_id]

theorem updateWhere_of_none (h : ∀ r ∈ rows, p r = false) :
    updateWhere p f rows = rows :=
  updateWhere_eq_self fun r hr hp => by simp [h r hr] at hp

theorem mem_updateWhere {r' : ρ} :
    r' ∈ updateWhere p f rows ↔ ∃ r ∈ rows, (if p r then f r else r) = r' :=
  List.mem_map

theorem mem_updateWhere_of_match {r : ρ} (hr : r ∈ rows) (hp : p r = true) :
    f r ∈ updateWhere p f rows :=
  mem_updateWhere.mpr ⟨r, hr, by simp [hp]⟩

theorem exists_mem_updateWhere {P : ρ → Prop} (h : ∀ r, P (f r) ↔ P r) :
    (∃ r ∈ updateWhere p f rows, P r) ↔ ∃ r ∈ rows, P r := by
  have heither : ∀ r, P (if p r then f r else r) ↔ P r := by
    intro r
    by_cases hp : p r = true
    · rw [if_pos hp]
      exact h r
    · rw [if_neg hp]
  constructor
  · intro hafter
    obtain ⟨r', hr', hP⟩ := hafter
    obtain ⟨r, hr, heq⟩ := mem_updateWhere.mp hr'
    exact ⟨r, hr, (heither r).mp (heq ▸ hP)⟩
  · intro hbefore
    obtain ⟨r, hr, hP⟩ := hbefore
    exact ⟨_, mem_updateWhere.mpr ⟨r, hr, rfl⟩, (heither r).mpr hP⟩

theorem mem_updateWhere_cases {r' : ρ} (h : r' ∈ updateWhere p f rows) :
    (∃ r ∈ rows, p r = true ∧ r' = f r) ∨ (r' ∈ rows ∧ p r' = false) := by
  obtain ⟨r, hr, rfl⟩ := mem_updateWhere.mp h
  by_cases hp : p r = true
  · exact .inl ⟨r, hr, hp, by simp [hp]⟩
  · simp only [Bool.not_eq_true] at hp
    exact .inr ⟨by simpa [hp] using hr, by simp [hp]⟩

theorem updateWhere_all {P : ρ → Prop} (hold : ∀ r ∈ rows, p r = false → P r)
    (hnew : ∀ r ∈ rows, p r = true → P (f r)) : ∀ r ∈ updateWhere p f rows, P r := by
  intro r hr
  rcases mem_updateWhere_cases hr with ⟨r₀, hr₀, hp, rfl⟩ | ⟨hr, hp⟩
  · exact hnew r₀ hr₀ hp
  · exact hold r hr hp

/-- An update that keeps a query's verdict on every row maps the answer. -/
theorem find?_updateWhere (h : ∀ r, p r = true → q (f r) = q r) :
    (updateWhere p f rows).find? q =
      (rows.find? q).map fun r => if p r then f r else r := by
  rw [updateWhere, List.find?_map]
  congr 2
  funext r
  by_cases hp : p r = true
  · simp [hp, h r hp]
  · simp [hp]

theorem updateWhere_updateWhere (hf : ∀ r, f (f r) = f r) :
    updateWhere q f (updateWhere p f rows) = updateWhere (fun r => p r || q r) f rows := by
  rw [updateWhere, updateWhere, updateWhere, List.map_map]
  apply List.map_congr_left
  intro r _
  rw [Function.comp_apply]
  by_cases hp : p r = true
  · simp [hp, hf r]
  · simp [hp]

theorem filter_updateWhere (hp : ∀ r, p r = true → q r = false ∧ q (f r) = false) :
    (updateWhere p f rows).filter q = rows.filter q := by
  induction rows with
  | nil => rfl
  | cons r rows ih =>
      rw [updateWhere, List.map_cons, List.filter_cons, List.filter_cons]
      have hrest : (rows.map fun r => if p r then f r else r).filter q = rows.filter q := ih
      rw [hrest]
      by_cases h : p r = true
      · simp [h, hp r h]
      · simp [h]

/-- Two updates of one table look alike where they do on every row. -/
theorem map_updateWhere_eq_iff {h : ρ → ρ} {view : ρ → κ} :
    (updateWhere p f rows).map view = (updateWhere q h rows).map view ↔
      ∀ r ∈ rows, view (if p r then f r else r) = view (if q r then h r else r) := by
  rw [updateWhere, updateWhere, List.map_map, List.map_map, List.map_inj_left]
  rfl

theorem map_updateWhere_eq_self_iff {view : ρ → κ} :
    (updateWhere p f rows).map view = rows.map view ↔
      ∀ r ∈ rows, p r = true → view (f r) = view r := by
  rw [updateWhere, List.map_map, List.map_inj_left]
  apply forall_congr'
  intro r
  apply imp_congr_right
  intro _
  rw [Function.comp_apply]
  by_cases hp : p r = true <;> simp [hp]

theorem find?_eq_some_of_unique
    (hone : ∀ a ∈ rows, ∀ b ∈ rows, p a = true → p b = true → a = b) {r : ρ} :
    rows.find? p = some r ↔ r ∈ rows ∧ p r = true := by
  constructor
  · exact fun h => ⟨List.mem_of_find?_eq_some h, List.find?_some h⟩
  · intro ⟨hr, hp⟩
    cases hfind : rows.find? p with
    | none => exact absurd hp (List.find?_eq_none.mp hfind r hr)
    | some a =>
        have ha : a ∈ rows := List.mem_of_find?_eq_some hfind
        rw [hone a ha r hr (List.find?_some hfind) hp]

theorem insertOnConflict_of_match {r : ρ} (hr : r ∈ rows) (hp : p r = true) :
    insertOnConflict p f new rows = updateWhere p f rows := by
  have hany : rows.any p = true := List.any_eq_true.mpr ⟨r, hr, hp⟩
  simp [insertOnConflict, hany]

theorem insertOnConflict_of_none (h : ∀ r ∈ rows, p r = false) :
    insertOnConflict p f new rows = rows ++ [new] := by
  have hany : rows.any p = false := by
    rw [List.any_eq_false]
    intro r hr
    simp [h r hr]
  simp [insertOnConflict, hany]

theorem insertOnConflict_cases (p : ρ → Bool) (f : ρ → ρ) (new : ρ) (rows : List ρ) :
    (∃ r ∈ rows, p r = true ∧ insertOnConflict p f new rows = updateWhere p f rows) ∨
    ((∀ r ∈ rows, p r = false) ∧ insertOnConflict p f new rows = rows ++ [new]) := by
  by_cases h : ∃ r ∈ rows, p r = true
  · obtain ⟨r, hr, hp⟩ := h
    exact .inl ⟨r, hr, hp, insertOnConflict_of_match hr hp⟩
  · have hnone : ∀ r ∈ rows, p r = false := by
      intro r hr
      by_contra hp
      exact h ⟨r, hr, by simpa using hp⟩
    exact .inr ⟨hnone, insertOnConflict_of_none hnone⟩

theorem insertOnConflict_all {P : ρ → Prop} (hold : ∀ r ∈ rows, p r = false → P r)
    (hupd : ∀ r ∈ rows, p r = true → P (f r)) (hnew : P new) :
    ∀ r ∈ insertOnConflict p f new rows, P r := by
  rcases insertOnConflict_cases p f new rows with ⟨_, _, _, heq⟩ | ⟨hnone, heq⟩
  · rw [heq]
    exact updateWhere_all hold hupd
  · rw [heq]
    intro r hr
    rcases List.mem_append.mp hr with hr | hr
    · exact hold r hr (hnone r hr)
    · rw [List.mem_singleton.mp hr]
      exact hnew

/-- The row an insert conflicts with, or the new one, answers its key. -/
theorem find?_insertOnConflict_self (hf : ∀ r, p r = true → p (f r) = true)
    (hnew : p new = true) :
    (insertOnConflict p f new rows).find? p = some (((rows.find? p).map f).getD new) := by
  rcases insertOnConflict_cases p f new rows with ⟨r, hr, hp, heq⟩ | ⟨hnone, heq⟩
  · rw [heq, find?_updateWhere fun r hr => (hf r hr).trans hr.symm]
    cases hfind : rows.find? p with
    | none => exact absurd hp (List.find?_eq_none.mp hfind r hr)
    | some r₀ => simp [List.find?_some hfind]
  · have hfind : rows.find? p = none := by
      rw [List.find?_eq_none]
      intro r hr
      simp [hnone r hr]
    rw [heq, List.find?_append, hfind]
    simp [hnew]

theorem find?_insertOnConflict_other (hq : ∀ r, p r = true → q r = false)
    (hf : ∀ r, p r = true → q (f r) = false) (hnew : q new = false) :
    (insertOnConflict p f new rows).find? q = rows.find? q := by
  rcases insertOnConflict_cases p f new rows with ⟨r, hr, hp, heq⟩ | ⟨-, heq⟩
  · rw [heq, find?_updateWhere fun r hr => (hf r hr).trans (hq r hr).symm]
    cases hfind : rows.find? q with
    | none => rfl
    | some r₀ =>
        have hp₀ : p r₀ = false := by
          by_contra hp₀
          have hq₀ := hq r₀ (by simpa using hp₀)
          rw [List.find?_some hfind] at hq₀
          cases hq₀
        simp [hp₀]
  · rw [heq, List.find?_append]
    simp [hnew]

section Unique
variable {key : ρ → Option κ}

theorem UniqueOn.eq_of_key (h : UniqueOn key rows) {a b : ρ} {k : κ}
    (ha : a ∈ rows) (hb : b ∈ rows) (hka : key a = some k) (hkb : key b = some k) :
    a = b := by
  by_contra hne
  have : Std.Symm fun a b : ρ => key a = key b → key a = none :=
    ⟨fun a b hab hba => by rw [hba]; exact hab hba.symm⟩
  have hnone := List.Pairwise.forall h ha hb hne (by rw [hka, hkb])
  rw [hka] at hnone
  cases hnone

theorem UniqueOn.updateWhere (h : UniqueOn key rows)
    (hf : ∀ r, p r = true → key (f r) = key r) :
    UniqueOn key (updateWhere p f rows) := by
  have hkey : ∀ r, key (if p r then f r else r) = key r := by
    intro r
    by_cases hp : p r = true
    · simp [hp, hf r hp]
    · simp [hp]
  apply List.pairwise_map.mpr
  apply List.Pairwise.imp _ h
  intro a b hab
  simpa only [hkey] using hab

theorem uniqueOn_append_singleton :
    UniqueOn key (rows ++ [new]) ↔
      UniqueOn key rows ∧ ∀ r ∈ rows, key r = key new → key r = none := by
  simp [UniqueOn, List.pairwise_append]

/-- An update that reaches a single row keeps the column unique exactly when
no other row holds the value it writes. -/
theorem uniqueOn_updateWhere_iff {r : ρ} (h : UniqueOn key rows)
    (hone : rows.Pairwise fun a b => ¬ (p a = true ∧ p b = true))
    (hr : r ∈ rows) (hp : p r = true) :
    UniqueOn key (Library.updateWhere p f rows) ↔
      ∀ a ∈ rows, p a = false → key a = key (f r) → key a = none := by
  induction rows with
  | nil => cases hr
  | cons b rest ih =>
      obtain ⟨hb, hrest⟩ := List.pairwise_cons.mp h
      obtain ⟨hbone, honerest⟩ := List.pairwise_cons.mp hone
      rcases List.mem_cons.mp hr with rfl | hr'
      · -- the updated row is the head, so the tail is untouched
        have hno : ∀ a ∈ rest, p a = false := by
          intro a ha
          by_contra hpa
          exact hbone a ha ⟨hp, by simpa using hpa⟩
        have htail : Library.updateWhere p f rest = rest := updateWhere_of_none hno
        have hcons : Library.updateWhere p f (r :: rest) = f r :: rest := by
          rw [← htail]
          simp [Library.updateWhere, hp, List.map_map, Function.comp_def]
          intro a ha
          simp [hno a ha]
        rw [hcons, UniqueOn, List.pairwise_cons]
        constructor
        · rintro ⟨hhead, -⟩ a ha hpa heq
          rcases List.mem_cons.mp ha with rfl | ha
          · rw [hp] at hpa
            cases hpa
          · rw [heq]
            exact hhead a ha heq.symm
        · intro hfree
          refine ⟨?_, hrest⟩
          intro a ha heq
          rw [heq]
          exact hfree a (List.mem_cons_of_mem _ ha) (hno a ha) heq.symm
      · have hpb : p b = false := by
          by_contra hpb
          exact hbone r hr' ⟨by simpa using hpb, hp⟩
        have hcons : Library.updateWhere p f (b :: rest) =
            b :: Library.updateWhere p f rest := by
          simp [Library.updateWhere, hpb]
        rw [hcons, UniqueOn, List.pairwise_cons]
        change _ ∧ UniqueOn key (Library.updateWhere p f rest) ↔ _
        rw [ih hrest honerest hr']
        constructor
        · rintro ⟨hhead, hfree⟩ a ha hpa heq
          rcases List.mem_cons.mp ha with rfl | ha
          · exact hhead (f r) (mem_updateWhere_of_match hr' hp) heq
          · exact hfree a ha hpa heq
        · intro hfree
          refine ⟨?_, fun a ha => hfree a (List.mem_cons_of_mem _ ha)⟩
          intro a ha heq
          rcases mem_updateWhere_cases ha with ⟨a₀, ha₀, hpa₀, rfl⟩ | ⟨ha, -⟩
          · have hsame : a₀ = r := by
              by_contra hne
              have : Std.Symm fun a b : ρ => ¬ (p a = true ∧ p b = true) :=
                ⟨fun _ _ hab hba => hab ⟨hba.2, hba.1⟩⟩
              exact List.Pairwise.forall honerest ha₀ hr' hne ⟨hpa₀, hp⟩
            subst hsame
            exact hfree b List.mem_cons_self hpb heq
          · exact hb a ha heq

end Unique

end Engramia.Library
