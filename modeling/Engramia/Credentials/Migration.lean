import Engramia.Credentials.Substitution
import Engramia.Library.Lists
import Mathlib.Data.String.Basic

/-!
The bulk migration of credentials between the backends. It reads the rows of the source in batches,
in the order of their ids, and writes each back sealed by the target. A row that does not open is
skipped. That a batch starts behind the last id is part of the query only for a run that is
continued: otherwise a row that stays with the source is read again and again.
-/
namespace Engramia.Credentials
open Engramia.Library

/-- The options of `credentials migrate-to-vault`. -/
structure MigrationOptions where
  dryRun : Bool
  tenant : Option String
  batchSize : ℕ
  continueFrom : Option String
  reverse : Bool

structure Migration where
  rows : CredentialTable Envelope
  lastId : Option String
  migrated : ℕ
  skipped : ℕ

inductive MigrationEnd where
  | finished (m : Migration)
  /-- The encryption for the target raised. -/
  | crashed (m : Migration)

section Definitions
variable (backends : Backends) (o : MigrationOptions)

def MigrationOptions.source : String := if o.reverse then "vault" else "local"

def MigrationOptions.target : String := if o.reverse then "local" else "vault"

/-- The `WHERE` of the batches. -/
def MigrationOptions.selects (lastId : Option String) (r : StoredCredential Envelope) : Bool :=
  r.blob.backend = o.source ∧ (∀ t ∈ o.tenant, r.tenantId = t) ∧
    (o.continueFrom.isSome = true → ∀ id ∈ lastId, id < r.id)

def MigrationOptions.selectBatch (rows : CredentialTable Envelope) (lastId : Option String) :
    List (StoredCredential Envelope) :=
  ((rows.rows.filter (o.selects lastId)).insertionSort fun a b => a.id ≤ b.id).take o.batchSize

/-- A row of a batch, with the nonce that is drawn for it and the time. -/
def migrateRow (draws : ℕ → Bytes × Int) (m : Migration) (row : StoredCredential Envelope) :
    Except Migration Migration :=
  match backends.decryptOf true row with
  | .error _ => .ok { m with skipped := m.skipped + 1, lastId := some row.id }
  | .ok key =>
      let draw := draws (m.migrated + m.skipped)
      match backends.encrypt true o.target draw.1 row.tenantId row.provider row.purpose key with
      | .error _ => .error m
      | .ok envelope =>
          .ok
            { rows :=
                if o.dryRun then m.rows
                else
                  m.rows.update (fun r => r.id = row.id)
                    (StoredCredential.reseal draw.2 envelope)
                    (StoredCredential.reseal_id draw.2 envelope)
              lastId := some row.id
              migrated := m.migrated + 1
              skipped := m.skipped }

def migrateRows (draws : ℕ → Bytes × Int) :
    List (StoredCredential Envelope) → Migration → Except Migration Migration
  | [], m => .ok m
  | row :: batch, m =>
      match migrateRow backends o draws m row with
      | .error m => .error m
      | .ok m => migrateRows draws batch m

/-- The `while True` of the command; nothing comes out while it goes on. -/
def migrateLoop (draws : ℕ → Bytes × Int) : ℕ → Migration → Option MigrationEnd
  | 0, _ => none
  | fuel + 1, m =>
      match o.selectBatch m.rows m.lastId with
      | [] => some (.finished m)
      | row :: batch =>
          match migrateRows backends o draws (row :: batch) m with
          | .error m => some (.crashed m)
          | .ok m => migrateLoop draws fuel m

def startMigration (rows : CredentialTable Envelope) : Migration where
  rows := rows
  lastId := o.continueFrom
  migrated := 0
  skipped := 0

/-- The rows a run is about. -/
def MigrationOptions.chosen (r : StoredCredential Envelope) : Bool :=
  o.selects o.continueFrom r

def Opens (r : StoredCredential Envelope) : Prop :=
  ∃ key, backends.decryptOf true r = .ok key

/-- A row with the same key sealed by the target, and nothing else changed but the time. -/
def Moved (r r' : StoredCredential Envelope) : Prop :=
  ∃ key envelope now, backends.decryptOf true r = .ok key ∧ r' = r.reseal now envelope ∧
    envelope.backend = o.target ∧ backends.decryptOf true r' = .ok key

/-- What a batch makes of a row. -/
structure Rewritten (batch : List (StoredCredential Envelope)) (r r' : StoredCredential Envelope) :
    Prop where
  moved : r ∈ batch → Opens backends r → o.dryRun = false → Moved backends o r r'
  same : ¬ (r ∈ batch ∧ Opens backends r ∧ o.dryRun = false) → r' = r

/-- What a batch makes of a table. -/
def Rewrites (batch : List (StoredCredential Envelope)) (t t' : CredentialTable Envelope) : Prop :=
  ∀ id, Option.Rel (Rewritten backends o batch) (t.row? id) (t'.row? id)

/-- A run that is continued is past the id. -/
def Behind (lastId : Option String) (id : String) : Prop :=
  o.continueFrom.isSome = true ∧ ∃ last ∈ lastId, id ≤ last

/-- What has become of a row: it is as it was, and then a run that is past it could not move it,
or it has been moved. -/
inductive Progress (lastId : Option String) (r : StoredCredential Envelope) :
    StoredCredential Envelope → Prop
  | same (h : o.chosen r = true → Behind o lastId r.id → Opens backends r → o.dryRun = true) :
      Progress lastId r r
  | moved {r' : StoredCredential Envelope} (hchosen : o.chosen r = true) (hdry : o.dryRun = false)
      (hmoved : Moved backends o r r') : Progress lastId r r'

structure InProgress (rows : CredentialTable Envelope) (m : Migration) : Prop where
  progress : ∀ id, Option.Rel (Progress backends o m.lastId) (rows.row? id) (m.rows.row? id)
  bound : ∀ r, o.selects m.lastId r = true → o.chosen r = true

/-- What a run that has finished has made of a row. -/
structure Settled (r r' : StoredCredential Envelope) : Prop where
  moved : o.chosen r = true → Opens backends r → o.dryRun = false → Moved backends o r r'
  same : ¬ (o.chosen r = true ∧ Opens backends r ∧ o.dryRun = false) → r' = r

/-- The target seals what the chosen rows open to. -/
def TargetSeals (draws : ℕ → Bytes × Int) (rows : CredentialTable Envelope) : Prop :=
  ∀ r ∈ rows.rows, o.chosen r = true → ∀ key, backends.decryptOf true r = .ok key → ∀ n,
    ∃ envelope, backends.encrypt true o.target (draws n).1 r.tenantId r.provider r.purpose key =
      .ok envelope

end Definitions

section Composition
universe u v w
variable {α : Type u} {β : Type v} {γ : Type w} {R : α → β → Prop} {S : β → γ → Prop}
  {T : α → γ → Prop} {a : Option α} {b : Option β} {c : Option γ}

theorem rel_comp (hab : Option.Rel R a b) (hbc : Option.Rel S b c)
    (h : ∀ x y z, a = some x → b = some y → R x y → S y z → T x z) : Option.Rel T a c := by
  cases hab with
  | none =>
      cases hbc with
      | none => exact .none
  | some hR =>
      cases hbc with
      | some hS => exact .some (h _ _ _ rfl rfl hR hS)

theorem rel_imp {R' : α → β → Prop} (hab : Option.Rel R a b)
    (h : ∀ x y, a = some x → b = some y → R x y → R' x y) : Option.Rel R' a b := by
  cases hab with
  | none => exact .none
  | some hR => exact .some (h _ _ rfl rfl hR)

theorem rel_self {P : α → α → Prop} (h : ∀ x, a = some x → P x x) : Option.Rel P a a := by
  cases a with
  | none => exact .none
  | some x => exact .some (h x rfl)

theorem exists_of_rel {x : α} (h : Option.Rel R (some x) b) : ∃ y, b = some y ∧ R x y := by
  cases h with
  | some hR => exact ⟨_, rfl, hR⟩

theorem exists_of_rel_right {y : β} (h : Option.Rel R a (some y)) : ∃ x, a = some x ∧ R x y := by
  cases h with
  | some hR => exact ⟨_, rfl, hR⟩

end Composition

section Rows
variable {backends : Backends} {o : MigrationOptions} {draws : ℕ → Bytes × Int}
  {m m' : Migration} {row : StoredCredential Envelope}

theorem source_ne_target (o : MigrationOptions) : o.source ≠ o.target := by
  rw [MigrationOptions.source, MigrationOptions.target]
  cases o.reverse <;> decide

theorem selects_iff {lastId : Option String} {r : StoredCredential Envelope} :
    o.selects lastId r = true ↔ r.blob.backend = o.source ∧ (∀ t ∈ o.tenant, r.tenantId = t) ∧
      (o.continueFrom.isSome = true → ∀ id ∈ lastId, id < r.id) := by
  rw [MigrationOptions.selects, decide_eq_true_iff]

theorem Moved.not_selects {r r' : StoredCredential Envelope} (h : Moved backends o r r')
    (lastId : Option String) : o.selects lastId r' = false := by
  obtain ⟨key, envelope, now, _, rfl, htarget, _⟩ := h
  rw [← Bool.not_eq_true, selects_iff]
  intro hselects
  exact source_ne_target o (hselects.1.symm.trans htarget)

theorem Moved.id {r r' : StoredCredential Envelope} (h : Moved backends o r r') : r'.id = r.id := by
  obtain ⟨_, _, _, _, rfl, _⟩ := h
  rfl

theorem encrypt_backend {backend : String} {up : Bool} {draw : Bytes} {t : String} {p : Provider}
    {u : Purpose} {key : String} {envelope : Envelope}
    (h : backends.encrypt up backend draw t p u key = .ok envelope) :
    envelope.backend = backend := by
  rw [Backends.encrypt] at h
  generalize hblob : (if backend = "local" then _ else _ : Except BackendError EncryptedBlob) = blob
    at h
  cases blob with
  | error e => cases h
  | ok blob =>
      rw [← Except.ok.inj h]

theorem Rewritten.of_notMem {batch : List (StoredCredential Envelope)}
    {r : StoredCredential Envelope} (h : r ∉ batch) : Rewritten backends o batch r r where
  moved hmem := absurd hmem h
  same _ := rfl

theorem migrateRow_ok (hbackends : backends.Authentic) (hdraws : ∀ n, (draws n).1.length = 12)
    (hrow : row ∈ m.rows.rows) (h : migrateRow backends o draws m row = .ok m') :
    m'.lastId = some row.id ∧ Rewrites backends o [row] m.rows m'.rows := by
  have hkept : ∀ (r : StoredCredential Envelope) (id : String), m.rows.row? id = some r →
      r ∈ [row] → r = row ∧ id = row.id := by
    intro r id hr hmem
    have heq := List.mem_singleton.mp hmem
    rw [heq] at hr
    exact ⟨heq, (Table.row?_eq_some.mp hr).2.symm⟩
  rw [migrateRow] at h
  cases hopen : backends.decryptOf true row with
  | error e =>
      have hclosed : ¬ Opens backends row := by
        intro hopens
        obtain ⟨key, hkey⟩ := hopens
        rw [hopen] at hkey
        cases hkey
      simp only [hopen, Except.ok.injEq] at h
      rw [← h]
      refine ⟨rfl, ?_⟩
      intro id
      cases hr : m.rows.row? id with
      | none => exact .none
      | some r =>
          refine .some ⟨?_, fun _ => rfl⟩
          intro hmem hopens
          exact absurd ((hkept r id hr hmem).1 ▸ hopens) hclosed
  | ok key =>
      simp only [hopen] at h
      split at h
      case h_1 => cases h
      case h_2 envelope hseal =>
          rw [← Except.ok.inj h]
          refine ⟨rfl, ?_⟩
          intro id
          cases hdry : o.dryRun with
          | true =>
              simp only [if_true]
              cases hr : m.rows.row? id with
              | none => exact .none
              | some r =>
                  refine .some ⟨fun _ _ hfalse => ?_, fun _ => rfl⟩
                  rw [hdry] at hfalse
                  cases hfalse
          | false =>
              simp only [Bool.false_eq_true, if_false]
              rw [Table.row?_update_key]
              by_cases hid : id = row.id
              · have hr : m.rows.row? id = some row := Table.row?_eq_some.mpr ⟨hrow, hid.symm⟩
                rw [if_pos hid, ← hid, hr]
                refine .some ⟨fun _ _ _ => ?_, fun hnot => ?_⟩
                · exact ⟨key, envelope, _, hopen, rfl, encrypt_backend hseal,
                    decrypt_encrypt hbackends (hdraws _) hseal⟩
                · exact absurd ⟨List.mem_singleton_self row, ⟨key, hopen⟩, hdry⟩ hnot
              · rw [if_neg hid]
                cases hr : m.rows.row? id with
                | none => exact .none
                | some r =>
                    refine .some (Rewritten.of_notMem ?_)
                    exact fun hmem => hid (hkept r id hr hmem).2

theorem Rewrites.refl (t : CredentialTable Envelope) : Rewrites backends o [] t t :=
  fun _ => rel_self fun _ _ => Rewritten.of_notMem List.not_mem_nil

theorem Rewrites.mem {batch : List (StoredCredential Envelope)} {t t' : CredentialTable Envelope}
    (h : Rewrites backends o batch t t') {r : StoredCredential Envelope} (hr : r ∈ t.rows)
    (hbatch : r ∉ batch) : r ∈ t'.rows := by
  have hrel := h r.id
  rw [Table.row?_eq_some.mpr ⟨hr, rfl⟩] at hrel
  obtain ⟨r', hafter, hrewritten⟩ := exists_of_rel hrel
  rw [hrewritten.same fun hmem => hbatch hmem.1] at hafter
  exact (Table.row?_eq_some.mp hafter).1

theorem Rewrites.cons {batch : List (StoredCredential Envelope)}
    {t t₁ t₂ : CredentialTable Envelope} (hfirst : Rewrites backends o [row] t t₁)
    (hrest : Rewrites backends o batch t₁ t₂)
    (hid : row.id ∉ batch.map StoredCredential.id) : Rewrites backends o (row :: batch) t t₂ := by
  intro id
  refine rel_comp (hfirst id) (hrest id) fun r r₁ r₂ hr hr₁ hone htwo => ?_
  by_cases heq : r = row
  · have hleft : r₁ ∉ batch := by
      intro hmem
      apply hid
      rw [← heq, (Table.row?_eq_some.mp hr).2, ← (Table.row?_eq_some.mp hr₁).2]
      exact List.mem_map_of_mem hmem
    rw [htwo.same fun hmem => hleft hmem.1]
    constructor
    · exact fun _ => hone.moved (List.mem_singleton.mpr heq)
    · intro hnot
      exact hone.same fun hmoves => hnot ⟨heq ▸ List.mem_cons_self, hmoves.2⟩
  · rw [hone.same fun hmoves => heq (List.mem_singleton.mp hmoves.1)] at htwo
    constructor
    · exact fun hmem => htwo.moved ((List.mem_cons.mp hmem).resolve_left heq)
    · intro hnot
      exact htwo.same fun hmoves => hnot ⟨List.mem_cons_of_mem _ hmoves.1, hmoves.2⟩

theorem migrateRows_rewrites (hbackends : backends.Authentic)
    (hdraws : ∀ n, (draws n).1.length = 12) {batch : List (StoredCredential Envelope)}
    (hbatch : ∀ row ∈ batch, row ∈ m.rows.rows) (hids : (batch.map StoredCredential.id).Nodup) :
    (∀ m', migrateRows backends o draws batch m = .ok m' →
      Rewrites backends o batch m.rows m'.rows ∧
        (batch = [] → m'.lastId = m.lastId) ∧
        (batch ≠ [] → ∃ row ∈ batch, m'.lastId = some row.id)) ∧
    (∀ m', migrateRows backends o draws batch m = .error m' →
      ∃ done, done <+: batch ∧ Rewrites backends o done m.rows m'.rows) := by
  induction batch generalizing m with
  | nil =>
      refine ⟨fun m' h => ?_, fun m' h => by cases h⟩
      rw [← Except.ok.inj h]
      exact ⟨Rewrites.refl _, fun _ => rfl, fun hne => absurd rfl hne⟩
  | cons row batch ih =>
      obtain ⟨hrow, hbatch⟩ := List.forall_mem_cons.mp hbatch
      rw [List.map_cons, List.nodup_cons] at hids
      cases hone : migrateRow backends o draws m row with
      | error m₁ =>
          have hsame : m₁ = m := by
            rw [migrateRow] at hone
            split at hone
            case h_1 => cases hone
            case h_2 =>
                dsimp only at hone
                split at hone
                case h_1 => exact (Except.error.inj hone).symm
                case h_2 => cases hone
          refine ⟨fun m' h => by simp [migrateRows, hone] at h, fun m' h => ?_⟩
          simp only [migrateRows, hone, Except.error.injEq] at h
          exact ⟨[], List.nil_prefix, by rw [← h, hsame]; exact Rewrites.refl _⟩
      | ok m₁ =>
          obtain ⟨hlast, hfirst⟩ := migrateRow_ok hbackends hdraws hrow hone
          have hbatch₁ : ∀ r ∈ batch, r ∈ m₁.rows.rows := by
            intro r hr
            apply hfirst.mem (hbatch r hr)
            intro hmem
            apply hids.1
            rw [← List.mem_singleton.mp hmem]
            exact List.mem_map_of_mem hr
          obtain ⟨hok, hcrash⟩ := ih hbatch₁ hids.2
          simp only [migrateRows, hone]
          constructor
          · intro m' h
            obtain ⟨hrest, hnil, hcons⟩ := hok m' h
            refine ⟨hfirst.cons hrest hids.1, fun hnil => absurd hnil (List.cons_ne_nil _ _),
              fun _ => ?_⟩
            cases batch with
            | nil => exact ⟨row, List.mem_cons_self, (hnil rfl).trans hlast⟩
            | cons next batch =>
                obtain ⟨r, hr, hrlast⟩ := hcons (List.cons_ne_nil _ _)
                exact ⟨r, List.mem_cons_of_mem _ hr, hrlast⟩
          · intro m' h
            obtain ⟨done, hdone, hrest⟩ := hcrash m' h
            refine ⟨row :: done, List.cons_prefix_cons.mpr ⟨rfl, hdone⟩,
              hfirst.cons hrest ?_⟩
            exact fun hmem => hids.1 ((hdone.sublist.map StoredCredential.id).subset hmem)

end Rows

section Batches
variable {o : MigrationOptions} {rows : CredentialTable Envelope} {lastId : Option String}
  {r : StoredCredential Envelope}

theorem mem_selectBatch (h : r ∈ o.selectBatch rows lastId) :
    r ∈ rows.rows ∧ o.selects lastId r = true := by
  have hsorted := List.mem_of_mem_take h
  exact List.mem_filter.mp ((List.mem_insertionSort _).mp hsorted)

theorem nodup_selectBatch (o : MigrationOptions) (rows : CredentialTable Envelope)
    (lastId : Option String) : ((o.selectBatch rows lastId).map StoredCredential.id).Nodup := by
  have hsub := (List.take_sublist o.batchSize
    ((rows.rows.filter (o.selects lastId)).insertionSort fun a b => a.id ≤ b.id)).map
      StoredCredential.id
  have hperm := (List.perm_insertionSort (fun a b : StoredCredential Envelope => a.id ≤ b.id)
    (rows.rows.filter (o.selects lastId))).map StoredCredential.id
  apply hsub.nodup
  rw [hperm.nodup_iff]
  exact rows.unique.sublist (List.filter_sublist.map StoredCredential.id)

theorem selectBatch_ahead (hr : r ∈ rows.rows) (hselects : o.selects lastId r = true)
    (hbatch : r ∉ o.selectBatch rows lastId) :
    ∀ b ∈ o.selectBatch rows lastId, b.id < r.id := by
  intro b hb
  have hsorted : ((rows.rows.filter (o.selects lastId)).insertionSort
      fun a b => a.id ≤ b.id).Pairwise fun a b => a.id ≤ b.id :=
    List.pairwise_insertionSort _ _
  have hmem : r ∈ (rows.rows.filter (o.selects lastId)).insertionSort fun a b => a.id ≤ b.id :=
    (List.mem_insertionSort _).mpr (List.mem_filter.mpr ⟨hr, hselects⟩)
  rw [← List.take_append_drop o.batchSize ((rows.rows.filter (o.selects lastId)).insertionSort
    fun a b => a.id ≤ b.id)] at hsorted hmem
  have hdrop := (List.mem_append.mp hmem).resolve_left hbatch
  have hle := (List.pairwise_append.mp hsorted).2.2 b hb r hdrop
  refine lt_of_le_of_ne hle ?_
  intro heq
  have hsame : b = r :=
    List.inj_on_of_nodup_map rows.unique (mem_selectBatch hb).1 hr heq
  exact hbatch (hsame ▸ hb)

theorem selectBatch_eq_nil (hsize : 0 < o.batchSize) :
    o.selectBatch rows lastId = [] ↔ ∀ r ∈ rows.rows, o.selects lastId r = false := by
  rw [MigrationOptions.selectBatch, List.take_eq_nil_iff]
  constructor
  · intro h r hr
    have hnil := h.resolve_left hsize.ne'
    cases hselects : o.selects lastId r with
    | false => rfl
    | true =>
        have hmem := (List.mem_insertionSort fun a b : StoredCredential Envelope =>
          a.id ≤ b.id).mpr (List.mem_filter.mpr ⟨hr, hselects⟩)
        rw [hnil] at hmem
        cases hmem
  · intro h
    right
    have hnil : rows.rows.filter (o.selects lastId) = [] :=
      List.filter_eq_nil_iff.mpr fun r hr => by simp [h r hr]
    rw [hnil]
    rfl

theorem selects_later {b : StoredCredential Envelope} (hb : o.selects lastId b = true)
    (h : o.selects (some b.id) r = true) : o.selects lastId r = true := by
  rw [selects_iff] at hb h ⊢
  refine ⟨h.1, h.2.1, fun hcontinue id hid => ?_⟩
  exact lt_trans (hb.2.2 hcontinue id hid) (h.2.2 hcontinue b.id rfl)

theorem selects_fresh (h : o.continueFrom = none) (lastId lastId' : Option String) :
    o.selects lastId r = o.selects lastId' r := by
  simp [MigrationOptions.selects, h]

end Batches

section Loop
variable {backends : Backends} {o : MigrationOptions} {draws : ℕ → Bytes × Int}
  {rows : CredentialTable Envelope} {m m' : Migration}

theorem inProgress_start (backends : Backends) (o : MigrationOptions)
    (rows : CredentialTable Envelope) : InProgress backends o rows (startMigration o rows) where
  progress := by
    intro id
    refine rel_self fun r _ => .same fun hchosen hbehind => ?_
    obtain ⟨hcontinue, last, hlast, hle⟩ := hbehind
    exact absurd hle (not_le.mpr ((selects_iff.mp hchosen).2.2 hcontinue last hlast))
  bound _ h := h

theorem InProgress.selected (h : InProgress backends o rows m) {r : StoredCredential Envelope}
    (hr : r ∈ m.rows.rows) (hselects : o.selects m.lastId r = true) :
    r ∈ rows.rows ∧ o.chosen r = true := by
  have hrel := h.progress r.id
  rw [Table.row?_eq_some.mpr ⟨hr, rfl⟩] at hrel
  obtain ⟨r₀, hstart, hprogress⟩ := exists_of_rel_right hrel
  cases hprogress with
  | same _ => exact ⟨(Table.row?_eq_some.mp hstart).1, h.bound r hselects⟩
  | moved _ _ hmoved =>
      rw [hmoved.not_selects m.lastId] at hselects
      cases hselects

theorem TargetSeals.migrateRows (hseals : TargetSeals backends o draws rows)
    {batch : List (StoredCredential Envelope)}
    (hbatch : ∀ r ∈ batch, r ∈ rows.rows ∧ o.chosen r = true) (m : Migration) :
    ∃ m', Credentials.migrateRows backends o draws batch m = .ok m' := by
  induction batch generalizing m with
  | nil => exact ⟨m, rfl⟩
  | cons row batch ih =>
      obtain ⟨⟨hrow, hchosen⟩, hbatch⟩ := List.forall_mem_cons.mp hbatch
      have hone : ∃ m₁, migrateRow backends o draws m row = .ok m₁ := by
        rw [migrateRow]
        cases hopen : backends.decryptOf true row with
        | error e => exact ⟨_, rfl⟩
        | ok key =>
            obtain ⟨envelope, hseal⟩ := hseals row hrow hchosen key hopen (m.migrated + m.skipped)
            simp only [hseal]
            exact ⟨_, rfl⟩
      obtain ⟨m₁, hm₁⟩ := hone
      simp only [Credentials.migrateRows, hm₁]
      exact ih hbatch m₁

theorem not_behind_of_left {r : StoredCredential Envelope} (hr : r ∈ m.rows.rows)
    (hchosen : o.chosen r = true) (hleft : r ∉ o.selectBatch m.rows m.lastId)
    (hold : ¬ Behind o m.lastId r.id) {b : StoredCredential Envelope}
    (hb : b ∈ o.selectBatch m.rows m.lastId) : ¬ Behind o (some b.id) r.id := by
  intro hbehind
  obtain ⟨hcontinue, last, hlast, hle⟩ := hbehind
  obtain ⟨hbackend, htenant, _⟩ := selects_iff.mp hchosen
  have hselects : o.selects m.lastId r = true := by
    refine selects_iff.mpr ⟨hbackend, htenant, fun _ old hmem => ?_⟩
    by_contra hnot
    exact hold ⟨hcontinue, old, hmem, not_lt.mp hnot⟩
  rw [← Option.some.inj hlast] at hle
  exact absurd hle (not_le.mpr (selectBatch_ahead hr hselects hleft b hb))

theorem InProgress.batch (h : InProgress backends o rows m)
    {done : List (StoredCredential Envelope)}
    (hdone : ∀ r ∈ done, r ∈ o.selectBatch m.rows m.lastId)
    (hrewrites : Rewrites backends o done m.rows m'.rows)
    (hlast : m'.lastId = m.lastId ∨ done = o.selectBatch m.rows m.lastId ∧
      ∃ b ∈ o.selectBatch m.rows m.lastId, m'.lastId = some b.id) :
    InProgress backends o rows m' where
  progress := by
    intro id
    refine rel_comp (h.progress id) (hrewrites id) fun r r₁ r₂ _ hr₁ hbefore hafter => ?_
    have hmem := (Table.row?_eq_some.mp hr₁).1
    cases hbefore with
    | moved hchosen hdry hmoved =>
        have hleft : r₁ ∉ done := by
          intro hin
          have hselects := (mem_selectBatch (hdone r₁ hin)).2
          rw [hmoved.not_selects m.lastId] at hselects
          cases hselects
        rw [hafter.same fun hmoves => hleft hmoves.1]
        exact .moved hchosen hdry hmoved
    | same hsame =>
        by_cases hmoves : r ∈ done ∧ Opens backends r ∧ o.dryRun = false
        · have hselects := (mem_selectBatch (hdone r hmoves.1)).2
          exact .moved (h.bound r hselects) hmoves.2.2
            (hafter.moved hmoves.1 hmoves.2.1 hmoves.2.2)
        · rw [hafter.same hmoves]
          refine .same fun hchosen hbehind hopens => ?_
          by_contra hdry
          have hleft : r ∉ done := fun hin =>
            hmoves ⟨hin, hopens, Bool.not_eq_true _ ▸ hdry⟩
          have hold : ¬ Behind o m.lastId r.id := fun hbehind => hdry (hsame hchosen hbehind hopens)
          cases hlast with
          | inl hlast => exact hold (hlast ▸ hbehind)
          | inr hlast =>
              obtain ⟨hall, b, hb, hlast⟩ := hlast
              rw [hlast] at hbehind
              exact not_behind_of_left hmem hchosen (hall ▸ hleft) hold hb hbehind
  bound := by
    intro r hselects
    cases hlast with
    | inl hlast => exact h.bound r (hlast ▸ hselects)
    | inr hlast =>
        obtain ⟨_, b, hb, hlast⟩ := hlast
        rw [hlast] at hselects
        exact h.bound r (selects_later (mem_selectBatch hb).2 hselects)

theorem batch_rewrites (hbackends : backends.Authentic) (hdraws : ∀ n, (draws n).1.length = 12)
    (o : MigrationOptions) (m : Migration) :
    (∀ m', migrateRows backends o draws (o.selectBatch m.rows m.lastId) m = .ok m' →
      Rewrites backends o (o.selectBatch m.rows m.lastId) m.rows m'.rows ∧
        (o.selectBatch m.rows m.lastId = [] → m'.lastId = m.lastId) ∧
        (o.selectBatch m.rows m.lastId ≠ [] →
          ∃ b ∈ o.selectBatch m.rows m.lastId, m'.lastId = some b.id)) ∧
    (∀ m', migrateRows backends o draws (o.selectBatch m.rows m.lastId) m = .error m' →
      ∃ done, done <+: o.selectBatch m.rows m.lastId ∧
        Rewrites backends o done m.rows m'.rows) :=
  migrateRows_rewrites hbackends hdraws (fun _ hr => (mem_selectBatch hr).1)
    (nodup_selectBatch o m.rows m.lastId)

theorem migrateLoop_succ (fuel : ℕ) (m : Migration) :
    migrateLoop backends o draws (fuel + 1) m =
      if o.selectBatch m.rows m.lastId = [] then some (.finished m)
      else
        match migrateRows backends o draws (o.selectBatch m.rows m.lastId) m with
        | .error m => some (.crashed m)
        | .ok m => migrateLoop backends o draws fuel m := by
  rw [migrateLoop]
  cases o.selectBatch m.rows m.lastId with
  | nil => rfl
  | cons row batch => rfl

theorem InProgress.next (hbackends : backends.Authentic) (hdraws : ∀ n, (draws n).1.length = 12)
    (h : InProgress backends o rows m) (hbatch : o.selectBatch m.rows m.lastId ≠ [])
    (hok : migrateRows backends o draws (o.selectBatch m.rows m.lastId) m = .ok m') :
    InProgress backends o rows m' := by
  obtain ⟨hrewrites, _, hlast⟩ := (batch_rewrites hbackends hdraws o m).1 m' hok
  exact h.batch (fun _ hr => hr) hrewrites (.inr ⟨rfl, hlast hbatch⟩)

theorem InProgress.finished (hbackends : backends.Authentic)
    (hdraws : ∀ n, (draws n).1.length = 12) (h : InProgress backends o rows m) {fuel : ℕ}
    (hloop : migrateLoop backends o draws fuel m = some (.finished m')) :
    InProgress backends o rows m' ∧ o.selectBatch m'.rows m'.lastId = [] := by
  induction fuel generalizing m with
  | zero => cases hloop
  | succ fuel ih =>
      rw [migrateLoop_succ] at hloop
      split at hloop
      case isTrue hnil =>
          simp only [Option.some.injEq, MigrationEnd.finished.injEq] at hloop
          rw [← hloop]
          exact ⟨h, hnil⟩
      case isFalse hbatch =>
          split at hloop
          case h_1 => cases hloop
          case h_2 m₁ hok => exact ih (h.next hbackends hdraws hbatch hok) hloop

/-- A row as it was, or moved. -/
def KeptRow (backends : Backends) (o : MigrationOptions) (r r' : StoredCredential Envelope) :
    Prop :=
  r' = r ∨ o.chosen r = true ∧ o.dryRun = false ∧ Moved backends o r r'

theorem InProgress.kept (h : InProgress backends o rows m) (id : String) :
    Option.Rel (KeptRow backends o) (rows.row? id) (m.rows.row? id) := by
  refine rel_imp (h.progress id) fun r r' _ _ hprogress => ?_
  cases hprogress with
  | same _ => exact .inl rfl
  | moved hchosen hdry hmoved => exact .inr ⟨hchosen, hdry, hmoved⟩

theorem InProgress.crashed (hbackends : backends.Authentic)
    (hdraws : ∀ n, (draws n).1.length = 12) (h : InProgress backends o rows m) {fuel : ℕ}
    (hloop : migrateLoop backends o draws fuel m = some (.crashed m')) (id : String) :
    Option.Rel (KeptRow backends o) (rows.row? id) (m'.rows.row? id) := by
  induction fuel generalizing m with
  | zero => cases hloop
  | succ fuel ih =>
      rw [migrateLoop_succ] at hloop
      split at hloop
      case isTrue => cases hloop
      case isFalse hbatch =>
          split at hloop
          case h_1 m₁ hcrash =>
              simp only [Option.some.injEq, MigrationEnd.crashed.injEq] at hloop
              obtain ⟨done, hdone, hrewrites⟩ := (batch_rewrites hbackends hdraws o m).2 m₁ hcrash
              -- What was done of the batch is read as if the last id had not moved yet.
              have hdone : InProgress backends o rows { m₁ with lastId := m.lastId } :=
                h.batch (fun _ hr => hdone.subset hr) hrewrites (.inl rfl)
              rw [← hloop]
              exact hdone.kept id
          case h_2 m₁ hok => exact ih (h.next hbackends hdraws hbatch hok) hloop

theorem InProgress.settled (hsize : 0 < o.batchSize) (h : InProgress backends o rows m)
    (hnone : o.selectBatch m.rows m.lastId = []) :
    (∀ id, Option.Rel (Settled backends o) (rows.row? id) (m.rows.row? id)) ∧
      (o.continueFrom = none → ∀ r ∈ rows.rows, o.chosen r = true →
        o.dryRun = false ∧ Opens backends r) := by
  have hunselected := (selectBatch_eq_nil hsize).mp hnone
  constructor
  · intro id
    refine rel_imp (h.progress id) fun r r' _ hr' hprogress => ?_
    cases hprogress with
    | moved hchosen hdry hmoved =>
        refine ⟨fun _ _ _ => hmoved, fun hnot => ?_⟩
        obtain ⟨key, _, _, hopen, _⟩ := hmoved
        exact absurd ⟨hchosen, ⟨key, hopen⟩, hdry⟩ hnot
    | same hsame =>
        refine ⟨fun hchosen hopens hdry => ?_, fun _ => rfl⟩
        have hselects := hunselected r (Table.row?_eq_some.mp hr').1
        have hbehind : Behind o m.lastId r.id := by
          by_contra hnot
          obtain ⟨hbackend, htenant, _⟩ := selects_iff.mp hchosen
          rw [← Bool.not_eq_true, selects_iff] at hselects
          apply hselects
          refine ⟨hbackend, htenant, fun hcontinue last hlast => ?_⟩
          by_contra hle
          exact hnot ⟨hcontinue, last, hlast, not_lt.mp hle⟩
        rw [hsame hchosen hbehind hopens] at hdry
        cases hdry
  · intro hfresh r hr hchosen
    have hrel := h.progress r.id
    rw [Table.row?_eq_some.mpr ⟨hr, rfl⟩] at hrel
    obtain ⟨r', hr', hprogress⟩ := exists_of_rel hrel
    cases hprogress with
    | moved _ hdry hmoved =>
        obtain ⟨key, _, _, hopen, _⟩ := hmoved
        exact ⟨hdry, key, hopen⟩
    | same _ =>
        have hselects := hunselected r (Table.row?_eq_some.mp hr').1
        rw [selects_fresh hfresh m.lastId o.continueFrom] at hselects
        rw [show o.selects o.continueFrom r = true from hchosen] at hselects
        cases hselects

/-- The ids of which the row is selected. -/
def pending (o : MigrationOptions) (ids : List String) (m : Migration) : List String :=
  ids.filter fun id => (m.rows.row? id).any (o.selects m.lastId)

/-- A run that is continued, or that moves every row it selects, has fewer rows left after each
batch. -/
theorem InProgress.pending_lt (hbackends : backends.Authentic)
    (hdraws : ∀ n, (draws n).1.length = 12) (h : InProgress backends o rows m)
    (hmoves : o.continueFrom = none → ∀ r ∈ rows.rows, o.chosen r = true →
      o.dryRun = false ∧ Opens backends r)
    (hbatch : o.selectBatch m.rows m.lastId ≠ [])
    (hok : migrateRows backends o draws (o.selectBatch m.rows m.lastId) m = .ok m') :
    (pending o (rows.rows.map StoredCredential.id) m').length <
      (pending o (rows.rows.map StoredCredential.id) m).length := by
  obtain ⟨hrewrites, _, hlast⟩ := (batch_rewrites hbackends hdraws o m).1 m' hok
  obtain ⟨b, hb, hlast⟩ := hlast hbatch
  obtain ⟨hbrow, hbselects⟩ := mem_selectBatch hb
  obtain ⟨hbstart, hbchosen⟩ := h.selected hbrow hbselects
  have hbefore : m.rows.row? b.id = some b := Table.row?_eq_some.mpr ⟨hbrow, rfl⟩
  apply length_filter_lt
  · intro id hid
    obtain ⟨r₂, hr₂, hselects⟩ := (Option.any_eq_true _ _).mp hid
    have hrel := hrewrites id
    rw [hr₂] at hrel
    obtain ⟨r₁, hr₁, hrewritten⟩ := exists_of_rel_right hrel
    rw [hlast] at hselects
    have hsame : r₂ = r₁ := by
      apply hrewritten.same
      intro hmoved
      rw [(hrewritten.moved hmoved.1 hmoved.2.1 hmoved.2.2).not_selects (some b.id)] at hselects
      cases hselects
    rw [hr₁, Option.any_some]
    exact selects_later hbselects (hsame ▸ hselects)
  · exact List.mem_map_of_mem hbstart
  · rw [hbefore, Option.any_some]
    exact hbselects
  · have hrel := hrewrites b.id
    rw [hbefore] at hrel
    obtain ⟨b', hb', hrewritten⟩ := exists_of_rel hrel
    rw [hb', Option.any_some, hlast]
    by_cases hmoved : Opens backends b ∧ o.dryRun = false
    · exact (hrewritten.moved hb hmoved.1 hmoved.2).not_selects (some b.id)
    · rw [hrewritten.same fun h => hmoved h.2]
      cases hfresh : o.continueFrom with
      | none =>
          obtain ⟨hdry, hopens⟩ := hmoves hfresh b hbstart hbchosen
          exact absurd ⟨hopens, hdry⟩ hmoved
      | some start =>
          rw [← Bool.not_eq_true, selects_iff]
          intro hselects
          exact lt_irrefl b.id (hselects.2.2 (by simp [hfresh]) b.id rfl)

theorem InProgress.ends (hbackends : backends.Authentic) (hdraws : ∀ n, (draws n).1.length = 12)
    (hseals : TargetSeals backends o draws rows)
    (hmoves : o.continueFrom = none → ∀ r ∈ rows.rows, o.chosen r = true →
      o.dryRun = false ∧ Opens backends r)
    (h : InProgress backends o rows m) :
    ∃ fuel m', migrateLoop backends o draws fuel m = some (.finished m') := by
  induction hn : (pending o (rows.rows.map StoredCredential.id) m).length
    using Nat.strong_induction_on generalizing m with
  | h n ih =>
      by_cases hbatch : o.selectBatch m.rows m.lastId = []
      · exact ⟨1, m, by rw [migrateLoop_succ, if_pos hbatch]⟩
      · have hselected : ∀ r ∈ o.selectBatch m.rows m.lastId, r ∈ rows.rows ∧ o.chosen r = true :=
          fun r hr => h.selected (mem_selectBatch hr).1 (mem_selectBatch hr).2
        obtain ⟨m₁, hok⟩ := hseals.migrateRows hselected m
        have hless := h.pending_lt hbackends hdraws hmoves hbatch hok
        obtain ⟨fuel, m', hloop⟩ :=
          ih _ (hn ▸ hless) (h.next hbackends hdraws hbatch hok) rfl
        refine ⟨fuel + 1, m', ?_⟩
        rw [migrateLoop_succ, if_neg hbatch, hok]
        exact hloop

end Loop

/-- The command comes to its end exactly when it was continued from an id, or it writes and every
row it is about opens. Then each of these rows that opens is sealed by the target with the key it
had, and no other row is touched. A run that crashes has moved some of them. -/
theorem migration_finishes_iff (backends : Backends) (hbackends : backends.Authentic)
    (o : MigrationOptions) (hsize : 0 < o.batchSize) (draws : ℕ → Bytes × Int)
    (hdraws : ∀ n, (draws n).1.length = 12) (rows : CredentialTable Envelope) :
    (TargetSeals backends o draws rows →
      ((∃ fuel m, migrateLoop backends o draws fuel (startMigration o rows) =
          some (.finished m)) ↔
        (o.continueFrom = none → ∀ r ∈ rows.rows, o.chosen r = true →
          o.dryRun = false ∧ Opens backends r))) ∧
    (∀ fuel m, migrateLoop backends o draws fuel (startMigration o rows) = some (.finished m) →
      ∀ id, Option.Rel (Settled backends o) (rows.row? id) (m.rows.row? id)) ∧
    ∀ fuel m, migrateLoop backends o draws fuel (startMigration o rows) = some (.crashed m) →
      ∀ id, Option.Rel (KeptRow backends o) (rows.row? id) (m.rows.row? id) := by
  have hstart := inProgress_start backends o rows
  refine ⟨fun hseals => ⟨fun hends => ?_, fun hmoves => ?_⟩, fun fuel m hloop => ?_,
    fun fuel m hloop => hstart.crashed hbackends hdraws hloop⟩
  · obtain ⟨fuel, m, hloop⟩ := hends
    obtain ⟨hprogress, hnone⟩ := hstart.finished hbackends hdraws hloop
    exact (hprogress.settled hsize hnone).2
  · exact hstart.ends hbackends hdraws hseals hmoves
  · obtain ⟨hprogress, hnone⟩ := hstart.finished hbackends hdraws hloop
    exact (hprogress.settled hsize hnone).1

section Sample

/-- The framed text in letters, in place of Vault's engine. -/
def framingTransit : Transit where
  encryptData _ data context :=
    (String.ofList ((frame context ++ data).map fun b => Char.ofNat b.toNat), 1)
  decryptData ciphertext context :=
    unframe context (ciphertext.toList.map fun c => UInt8.ofNat c.toNat)

theorem letter_inj (b : UInt8) : UInt8.ofNat (Char.ofNat b.toNat).toNat = b := by
  have hvalid : b.toNat.isValidChar := Or.inl (lt_trans b.toNat_lt (by decide))
  have hletter : (Char.ofNat b.toNat).toNat = b.toNat := by
    rw [Char.ofNat, dif_pos hvalid]
    rfl
  rw [hletter, UInt8.ofNat_toNat]

theorem framingTransit_authentic : framingTransit.Authentic where
  opens _ data context := by
    simp [framingTransit, Function.comp_def, letter_inj, unframe_frame, - List.map_append]
  bound _ data context context' out h := by
    simp only [framingTransit, String.toList_ofList, List.map_map, Function.comp_def, letter_inj,
      List.map_id'] at h
    exact unframe_other h

def framingBoth : Backends where
  localBackend := some ⟨framing, 1⟩
  vaultBackend := some framingTransit

theorem framingBoth_authentic : framingBoth.Authentic where
  localCipher := framingOnly_authentic.localCipher
  vaultEngine := by
    intro transit htransit
    rw [← Option.some.inj htransit]
    exact framingTransit_authentic

def sealedRows : CredentialTable Envelope := (exec (resolverStep framingBoth) noRows [acmePost]).rows

def rehearsal : MigrationOptions :=
  { dryRun := true, tenant := none, batchSize := 100, continueFrom := none, reverse := false }

def zeroDraws (_ : ℕ) : Bytes × Int := (List.replicate 12 0, 2)

theorem sealedRows_opens : ∀ r ∈ sealedRows.rows, framingBoth.decryptOf true r = .ok "sk-acme" ∧
    (framingBoth.encrypt true "vault" (List.replicate 12 0) r.tenantId r.provider r.purpose
      "sk-acme").isOk = true := by
  decide +kernel

theorem targetSeals_acme : TargetSeals framingBoth rehearsal zeroDraws sealedRows := by
  intro r hr _ key hkey n
  obtain ⟨hopens, hseals⟩ := sealedRows_opens r hr
  rw [hopens] at hkey
  rw [← Except.ok.inj hkey]
  cases hseal : framingBoth.encrypt true "vault" (List.replicate 12 0) r.tenantId r.provider
      r.purpose "sk-acme" with
  | error e =>
      rw [hseal] at hseals
      cases hseals
  | ok envelope => exact ⟨envelope, hseal⟩

/-- A dry run over a row of the source reads it over and over. -/
theorem dry_run_goes_on :
    ¬ ∃ fuel m, migrateLoop framingBoth rehearsal zeroDraws fuel
      (startMigration rehearsal sealedRows) = some (.finished m) := by
  intro hends
  have hmoves := ((migration_finishes_iff framingBoth framingBoth_authentic rehearsal (by decide)
    zeroDraws (fun _ => rfl) sealedRows).1 targetSeals_acme).mp hends rfl
  have hall : sealedRows.rows.all (fun r => rehearsal.chosen r = false) = true := by
    rw [List.all_eq_true]
    intro r hr
    by_contra hchosen
    have hnot := (hmoves r hr (by simpa using hchosen)).1
    cases hnot
  revert hall
  decide +kernel

end Sample

end Engramia.Credentials
