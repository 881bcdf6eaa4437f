import Engramia.Library.KeyedTable
import Engramia.Library.Like
import Engramia.Library.Noninterference
import Engramia.Storage.Backend

/-!
The Postgres store. All scopes share two tables, whose rows bear the scope, and every statement
asks for the rows of one scope. Prefixes are matched by `LIKE`, with the wildcards of the prefix
escaped. What the database makes of documents and vectors, and what the index of the vectors
finds, are parameters. Every scope is served from contents of its own, whatever the others do.
-/
namespace Engramia.Storage
open Engramia.Library

structure MemoryData (V : Type) where
  scope : Scope
  key : Text
  data : V

structure MemoryEmbedding (F : Type) where
  scope : Scope
  key : Text
  embedding : List F

def MemoryData.primaryKey {V : Type} (r : MemoryData V) : Scope × Text := (r.scope, r.key)

def MemoryEmbedding.primaryKey {F : Type} (r : MemoryEmbedding F) : Scope × Text := (r.scope, r.key)

structure PostgresStore (V F : Type) where
  memoryData : Table (MemoryData.primaryKey : MemoryData V → Scope × Text)
  memoryEmbeddings : Table (MemoryEmbedding.primaryKey : MemoryEmbedding F → Scope × Text)

inductive PostgresError where
  /-- A vector to be saved is not of the configured dimension. -/
  | embeddingMismatch (expected got : ℕ)
  | queryMismatch (got stored : ℕ)
  /-- The value cannot be written or is not taken by the database. -/
  | refused
  /-- A pattern of `LIKE` ends in the midst of an escape. -/
  | invalidEscape

/-- The configured dimension and the database: the document that is read back where one was saved,
the vector that a literal with eight decimals stands for, the order of texts, and pgvector. -/
structure Postgres (V F S : Type) where
  embeddingDim : ℕ
  jsonb : V → Option V
  vecToPg : List F → Option (List F)
  collation : Text → Text → Bool
  similarity : List F → List F → S
  le : S → S → Bool
  nearest : List F → ℕ → List (MemoryEmbedding F) → List (MemoryEmbedding F)

variable {V F S : Type}

namespace Postgres

/-- An index finds some of the rows, as many as it may, the most similar first. It need not find
all that are as similar. -/
structure Searches (D : Postgres V F S) : Prop where
  subperm : ∀ vec limit rows, (D.nearest vec limit rows).Subperm rows
  bounded : ∀ vec limit rows, (D.nearest vec limit rows).length ≤ limit
  ranked : ∀ vec limit rows, (D.nearest vec limit rows).Pairwise fun x y =>
    D.le (D.similarity vec y.embedding) (D.similarity vec x.embedding)

def format (D : Postgres V F S) : Format V F S where
  document := D.jsonb
  vector embedding := if embedding.length ≠ D.embeddingDim then none else D.vecToPg embedding
  similarity := D.similarity
  le := D.le

theorem format_document (D : Postgres V F S) (data : V) :
    D.format.document data = D.jsonb data :=
  rfl

theorem format_vector (D : Postgres V F S) (embedding : List F) : D.format.vector embedding =
    if embedding.length ≠ D.embeddingDim then none else D.vecToPg embedding :=
  rfl

end Postgres

abbrev PostgresM (V F : Type) := EStateM PostgresError (PostgresStore V F)

/-- `%`, `_` and the escape that the statements name. -/
def sqlWildcards : Wildcards Char where
  any := '%'
  one := '_'
  escape := '\\'
  any_ne_one := by decide
  any_ne_escape := by decide
  one_ne_escape := by decide

def escapeLike (value : Text) : Text := sqlWildcards.escapeLike value

/-- The rows with a key that matches, as far as the pattern can be read. -/
def whereLike {ρ : Type} (key : ρ → Text) (pattern : Text) : List ρ → Except PostgresError (List ρ)
  | [] => .ok []
  | r :: rows =>
      match sqlWildcards.like pattern (key r), whereLike key pattern rows with
      | some true, .ok found => .ok (r :: found)
      | some false, .ok found => .ok found
      | _, _ => .error .invalidEscape

/-- The rows under a prefix; an empty prefix asks for nothing. -/
def wherePrefix {ρ : Type} (key : ρ → Text) (keyPrefix : Text) (rows : List ρ) :
    Except PostgresError (List ρ) :=
  if keyPrefix = [] then .ok rows
  else whereLike key (escapeLike keyPrefix ++ ['%']) rows

/-- `INSERT … ON CONFLICT DO UPDATE` on the primary key. -/
def upsert {ρ κ : Type} [DecidableEq κ] {key : ρ → κ} (t : Table key) (r : ρ) (f : ρ → ρ)
    (hf : ∀ x, key (f x) = key x) : Table key :=
  match t.insert r with
  | some t' => t'
  | none => t.update (fun x => key x = key r) f hf

namespace PostgresStore

/-- A statement that only reads. -/
def query {α : Type} (f : PostgresStore V F → Except PostgresError α) : PostgresM V F α := fun db =>
  match f db with
  | .ok a => .ok a db
  | .error e => .error e db

def execute (f : PostgresStore V F → PostgresStore V F) : PostgresM V F Unit := fun db =>
  .ok () (f db)

def dataOf (db : PostgresStore V F) (s : Scope) : List (MemoryData V) :=
  db.memoryData.rows.filter fun r => r.scope = s

def embeddingsOf (db : PostgresStore V F) (s : Scope) : List (MemoryEmbedding F) :=
  db.memoryEmbeddings.rows.filter fun r => r.scope = s

section Statements
variable (s : Scope)

def upsertData (key : Text) (data : V) (db : PostgresStore V F) : PostgresStore V F :=
  { db with
    memoryData := upsert db.memoryData ⟨s, key, data⟩ (fun r => { r with data := data })
      fun _ => rfl }

def upsertEmbedding (key : Text) (vec : List F) (db : PostgresStore V F) : PostgresStore V F :=
  { db with
    memoryEmbeddings := upsert db.memoryEmbeddings ⟨s, key, vec⟩
      (fun r => { r with embedding := vec }) fun _ => rfl }

def deleteKey (key : Text) (db : PostgresStore V F) : PostgresStore V F where
  memoryData := db.memoryData.delete fun r => r.primaryKey = (s, key)
  memoryEmbeddings := db.memoryEmbeddings.delete fun r => r.primaryKey = (s, key)

def load (key : Text) : PostgresM V F (Option V) :=
  query fun db => .ok ((db.memoryData.row? (s, key)).map MemoryData.data)

def save (D : Postgres V F S) (key : Text) (data : V) : PostgresM V F Unit :=
  match D.jsonb data with
  | some data => execute (upsertData s key data)
  | none => throw .refused

def listKeys (D : Postgres V F S) (keyPrefix : Text) : PostgresM V F (List Text) :=
  query fun db => do
    let rows ← wherePrefix MemoryData.key keyPrefix (db.dataOf s)
    return (rows.map MemoryData.key).mergeSort D.collation

def delete (key : Text) : PostgresM V F Unit :=
  execute (deleteKey s key)

def countPatterns (keyPrefix : Text) : PostgresM V F ℕ :=
  query fun db => do
    let rows ← whereLike MemoryData.key (escapeLike keyPrefix ++ ['%']) (db.dataOf s)
    return rows.length

def saveEmbedding (D : Postgres V F S) (key : Text) (embedding : List F) : PostgresM V F Unit :=
  if embedding.length ≠ D.embeddingDim then
    throw (.embeddingMismatch D.embeddingDim embedding.length)
  else
    match D.vecToPg embedding with
    | some vec => execute (upsertEmbedding s key vec)
    | none => throw .refused

def searchSimilar (D : Postgres V F S) (embedding : List F) (limit : ℕ) (keyPrefix : Text) :
    PostgresM V F (List (Text × S)) :=
  if embedding.length ≠ D.embeddingDim then
    throw (.queryMismatch embedding.length D.embeddingDim)
  else
    match D.vecToPg embedding with
    | some vec =>
        query fun db => do
          let rows ← wherePrefix MemoryEmbedding.key keyPrefix (db.embeddingsOf s)
          return (D.nearest vec limit rows).map fun r => (r.key, D.similarity vec r.embedding)
    | none => throw .refused

end Statements

def perform (D : Postgres V F S) (s : Scope) : BackendOp V F → PostgresM V F (BackendAnswer V S)
  | .call (.load key) => do return .response (.value (← load s key))
  | .call (.save key data) => do save s D key data; return .response .done
  | .call (.listKeys keyPrefix) => do return .response (.keys (← listKeys s D keyPrefix))
  | .call (.delete key) => do delete s key; return .response .done
  | .call (.saveEmbedding key embedding) => do
      saveEmbedding s D key embedding; return .response .done
  | .call (.searchSimilar embedding limit keyPrefix) => do
      return .response (.hits (← searchSimilar s D embedding limit keyPrefix))
  | .countPatterns keyPrefix => do return .count (← countPatterns s keyPrefix)

def empty : PostgresStore V F := ⟨⟨[], List.nodup_nil⟩, ⟨[], List.nodup_nil⟩⟩

/-- The requests of all scopes, each with its scope and its answer. -/
def serve (D : Postgres V F S) : PostgresStore V F → List (Scope × BackendOp V F) →
    List (Scope × BackendOp V F × Except PostgresError (BackendAnswer V S))
  | _, [] => []
  | db, (s, op) :: requests =>
      (s, op, outcome (perform D s op db)) :: serve D (final (perform D s op db)) requests

/-- What the tables hold of a scope. -/
def contents (db : PostgresStore V F) (s : Scope) : Contents V F where
  documents key := (db.memoryData.row? (s, key)).map MemoryData.data
  embeddings key := (db.memoryEmbeddings.row? (s, key)).map MemoryEmbedding.embedding

section Prefixes
variable {ρ : Type} {key : ρ → Text} {keyPrefix : Text} {rows : List ρ}

theorem whereLike_eq : whereLike key (escapeLike keyPrefix ++ ['%']) rows =
    .ok (rows.filter fun r => keyPrefix.isPrefixOf (key r)) := by
  induction rows with
  | nil => rfl
  | cons r rows ih =>
      have hlike : sqlWildcards.like (escapeLike keyPrefix ++ ['%']) (key r) =
          some (keyPrefix.isPrefixOf (key r)) := sqlWildcards.like_starting keyPrefix (key r)
      rw [whereLike, ih, hlike, List.filter_cons]
      cases keyPrefix.isPrefixOf (key r) with
      | true => rfl
      | false => rfl

theorem wherePrefix_eq : wherePrefix key keyPrefix rows =
    .ok (rows.filter fun r => keyPrefix.isPrefixOf (key r)) := by
  rw [wherePrefix]
  by_cases hempty : keyPrefix = []
  · simp [hempty]
  · rw [if_neg hempty, whereLike_eq]

end Prefixes

section Queries
variable {α β : Type} (f : PostgresStore V F → Except PostgresError α) (g : α → β)
  (db : PostgresStore V F)

theorem final_query : final ((query f >>= fun a => pure (g a)) db) = db := by
  cases h : f db with
  | ok a =>
      have hquery : query f db = .ok a db := by rw [query, h]
      rw [bind_ok hquery]
      rfl
  | error e =>
      have hquery : query f db = .error e db := by rw [query, h]
      rw [bind_error hquery]
      rfl

theorem outcome_query : outcome ((query f >>= fun a => pure (g a)) db) = (f db).map g := by
  cases h : f db with
  | ok a =>
      have hquery : query f db = .ok a db := by rw [query, h]
      rw [bind_ok hquery]
      rfl
  | error e =>
      have hquery : query f db = .error e db := by rw [query, h]
      rw [bind_error hquery]
      rfl

end Queries

theorem row?_upsert {ρ κ : Type} [DecidableEq κ] {key : ρ → κ} (t : Table key) (r : ρ) {f : ρ → ρ}
    (hf : ∀ x, key (f x) = key x) (k : κ) : (upsert t r f hf).row? k =
      if k = key r then some (((t.row? (key r)).map f).getD r) else t.row? k := by
  rw [upsert]
  cases hrow : t.row? (key r) with
  | none =>
      have hinsert := Table.exists_insert hrow
      cases hinsert with
      | intro t' hinsert =>
          rw [hinsert]
          apply (Table.row?_insert hinsert k).trans
          simp only [eq_comm, Option.map_none, Option.getD_none]
  | some r' =>
      rw [Table.insert_eq_none hrow]
      apply (Table.row?_update_key t hf (key r) k).trans
      simp [hrow]

theorem map_row?_upsert {ρ κ α : Type} [DecidableEq κ] {key : ρ → κ} (t : Table key) (r : ρ)
    (f : ρ → ρ) (hf : ∀ x, key (f x) = key x) (g : ρ → α) (hg : ∀ x, g (f x) = g r) (k : κ) :
    ((upsert t r f hf).row? k).map g =
      if k = key r then some (g r) else (t.row? k).map g := by
  rw [row?_upsert]
  by_cases hk : k = key r
  · rw [if_pos hk, if_pos hk]
    cases t.row? (key r) with
    | none => rfl
    | some x => exact congrArg some (hg x)
  · rw [if_neg hk, if_neg hk]

theorem map_row?_delete {ρ κ α : Type} [DecidableEq κ] {key : ρ → κ} (t : Table key)
    (g : ρ → α) (k k' : κ) : ((t.delete fun r => key r = k).row? k').map g =
      if k' = k then none else (t.row? k').map g := by
  rw [Table.row?_delete_key, apply_ite (Option.map g)]
  rfl

section Contents
variable {db : PostgresStore V F} {s s' : Scope} {D : Postgres V F S} {key keyPrefix : Text}

theorem mem_dataOf {r : MemoryData V} :
    r ∈ db.dataOf s ↔ db.memoryData.row? (s, r.key) = some r := by
  rw [Table.row?_eq_some, dataOf, List.mem_filter, decide_eq_true_iff, MemoryData.primaryKey,
    Prod.mk.injEq]
  simp

theorem mem_embeddingsOf {r : MemoryEmbedding F} :
    r ∈ db.embeddingsOf s ↔ db.memoryEmbeddings.row? (s, r.key) = some r := by
  rw [Table.row?_eq_some, embeddingsOf, List.mem_filter, decide_eq_true_iff,
    MemoryEmbedding.primaryKey, Prod.mk.injEq]
  simp

theorem nodup_keys {ρ : Type} {scope : ρ → Scope} {key : ρ → Text} {rows : List ρ}
    (hunique : (rows.map fun r => (scope r, key r)).Nodup) {s : Scope} :
    ((rows.filter fun r => scope r = s).map key).Nodup := by
  apply List.Nodup.map_on
  · intro r hr r' hr' hkey
    have hr := List.mem_filter.mp hr
    have hr' := List.mem_filter.mp hr'
    apply List.inj_on_of_nodup_map hunique hr.1 hr'.1
    rw [of_decide_eq_true hr.2, of_decide_eq_true hr'.2, hkey]
  · exact (List.Nodup.of_map _ hunique).filter _

theorem lists_dataOf {keys : List Text} (hkeys : keys.Perm
    (((db.dataOf s).filter fun r => keyPrefix.isPrefixOf r.key).map MemoryData.key)) :
    (db.contents s).Lists keyPrefix keys := by
  constructor
  · apply hkeys.nodup_iff.mpr
    exact (nodup_keys db.memoryData.unique).sublist (List.filter_sublist.map MemoryData.key)
  · intro k
    rw [hkeys.mem_iff, List.mem_map]
    constructor
    · intro h
      cases h with
      | intro r h =>
          have hmem := List.mem_filter.mp h.1
          rw [← h.2]
          refine ⟨?_, List.isPrefixOf_iff_prefix.mp hmem.2⟩
          simp [contents, mem_dataOf.mp hmem.1]
    · intro h
      cases hrow : db.memoryData.row? (s, k) with
      | none => exact absurd (by simp [contents, hrow]) h.1
      | some r =>
          have hkey : r.key = k := congrArg Prod.snd (Table.row?_eq_some.mp hrow).2
          refine ⟨r, List.mem_filter.mpr ⟨?_, ?_⟩, hkey⟩
          · rw [mem_dataOf, hkey]
            exact hrow
          · rw [hkey]
            exact List.isPrefixOf_iff_prefix.mpr h.2

/-- What the index finds among the rows under a prefix is what a search of the contents may. -/
theorem finds_nearest (hD : D.Searches) (vec : List F) (limit : ℕ) :
    (db.contents s).Finds D.format vec limit keyPrefix
      ((D.nearest vec limit
        ((db.embeddingsOf s).filter fun r => keyPrefix.isPrefixOf r.key)).map fun r =>
          (r.key, D.similarity vec r.embedding)) where
  bounded := by
    rw [List.length_map]
    exact hD.bounded _ _ _
  distinct := by
    rw [List.map_map]
    cases hD.subperm vec limit
      ((db.embeddingsOf s).filter fun r => keyPrefix.isPrefixOf r.key) with
    | intro found h =>
        apply (h.1.map _).nodup_iff.mp
        have hsub := (h.2.trans List.filter_sublist).map MemoryEmbedding.key
        exact (nodup_keys db.memoryEmbeddings.unique).sublist hsub
  ranked := List.pairwise_map.mpr (hD.ranked _ _ _)
  stored := by
    intro hit hhit
    cases List.mem_map.mp hhit with
    | intro r h =>
        have hmem := List.mem_filter.mp ((hD.subperm _ _ _).subset h.1)
        rw [← h.2]
        refine ⟨List.isPrefixOf_iff_prefix.mp hmem.2, r.embedding, ?_, rfl⟩
        simp [contents, mem_embeddingsOf.mp hmem.1]

theorem write_eq {α : Type} {m : Scope → KeyMap α} {m' : KeyMap α} {a : Option α}
    (h : ∀ k, m' k = if (s', k) = (s, key) then a else m s' k) :
    m' = if s' = s then Function.update (m s) key a else m s' := by
  by_cases hs : s' = s
  · rw [if_pos hs]
    funext k
    rw [h, hs, Function.update_apply]
    simp only [Prod.mk.injEq, true_and]
  · rw [if_neg hs]
    funext k
    rw [h, if_neg fun heq => hs (congrArg Prod.fst heq)]

theorem documents_upsertData (data : V) :
    ((db.upsertData s key data).contents s').documents =
      if s' = s then Function.update (db.contents s).documents key (some data)
      else (db.contents s').documents := by
  apply write_eq (m := fun s => (db.contents s).documents)
  intro k
  exact map_row?_upsert db.memoryData ⟨s, key, data⟩ (fun r => { r with data := data })
    (fun _ => rfl) MemoryData.data (fun _ => rfl) (s', k)

theorem embeddings_upsertEmbedding (vec : List F) :
    ((db.upsertEmbedding s key vec).contents s').embeddings =
      if s' = s then Function.update (db.contents s).embeddings key (some vec)
      else (db.contents s').embeddings := by
  apply write_eq (m := fun s => (db.contents s).embeddings)
  intro k
  exact map_row?_upsert db.memoryEmbeddings ⟨s, key, vec⟩ (fun r => { r with embedding := vec })
    (fun _ => rfl) MemoryEmbedding.embedding (fun _ => rfl) (s', k)

theorem documents_deleteKey : ((db.deleteKey s key).contents s').documents =
    if s' = s then Function.update (db.contents s).documents key none
    else (db.contents s').documents := by
  apply write_eq (m := fun s => (db.contents s).documents)
  intro k
  exact map_row?_delete db.memoryData MemoryData.data (s, key) (s', k)

theorem embeddings_deleteKey : ((db.deleteKey s key).contents s').embeddings =
    if s' = s then Function.update (db.contents s).embeddings key none
    else (db.contents s').embeddings := by
  apply write_eq (m := fun s => (db.contents s).embeddings)
  intro k
  exact map_row?_delete db.memoryEmbeddings MemoryEmbedding.embedding (s, key) (s', k)

theorem contents_eq {db' : PostgresStore V F} {c : Contents V F}
    (hdocuments : (db'.contents s').documents =
      if s' = s then c.documents else (db.contents s').documents)
    (hembeddings : (db'.contents s').embeddings =
      if s' = s then c.embeddings else (db.contents s').embeddings) :
    db'.contents s' = if s' = s then c else db.contents s' := by
  by_cases hs : s' = s
  · rw [if_pos hs] at hdocuments hembeddings ⊢
    rw [Contents.mk.injEq]
    exact ⟨hdocuments, hembeddings⟩
  · rw [if_neg hs] at hdocuments hembeddings ⊢
    rw [Contents.mk.injEq]
    exact ⟨hdocuments, hembeddings⟩

theorem ite_scope {α : Type} (m : Scope → α) : m s' = if s' = s then m s else m s' := by
  by_cases hs : s' = s
  · rw [if_pos hs, hs]
  · rw [if_neg hs]

theorem contents_perform (op : BackendOp V F) : (final (perform D s op db)).contents s' =
    if s' = s then (db.contents s).next D.format op else db.contents s' := by
  cases op with
  | countPatterns keyPrefix =>
      rw [perform, countPatterns, final_query]
      exact ite_scope db.contents
  | call op =>
      cases op with
      -- Readers leave the tables as they are.
      | load key =>
          rw [perform, load, final_query]
          exact ite_scope db.contents
      | save key data =>
          rw [perform, save, Contents.next, Postgres.format_document]
          cases D.jsonb data with
          | none => exact ite_scope db.contents
          | some data =>
              refine contents_eq (documents_upsertData data) ?_
              exact ite_scope fun s => (db.contents s).embeddings
      | listKeys keyPrefix =>
          rw [perform, listKeys, final_query]
          exact ite_scope db.contents
      | delete key =>
          exact contents_eq documents_deleteKey embeddings_deleteKey
      | saveEmbedding key embedding =>
          rw [perform, saveEmbedding, Contents.next, Postgres.format_vector]
          by_cases hdim : embedding.length ≠ D.embeddingDim
          · simp only [if_pos hdim]
            exact ite_scope db.contents
          · simp only [if_neg hdim]
            cases D.vecToPg embedding with
            | none => exact ite_scope db.contents
            | some vec =>
                refine contents_eq ?_ (embeddings_upsertEmbedding vec)
                exact ite_scope fun s => (db.contents s).documents
      | searchSimilar embedding limit keyPrefix =>
          rw [perform, searchSimilar]
          by_cases hdim : embedding.length ≠ D.embeddingDim
          · simp only [if_pos hdim]
            exact ite_scope db.contents
          · simp only [if_neg hdim]
            cases D.vecToPg embedding with
            | none => exact ite_scope db.contents
            | some vec =>
                rw [final_query]
                exact ite_scope db.contents

theorem answers_perform (hD : D.Searches) (op : BackendOp V F) :
    (db.contents s).Answers D.format op (outcome (perform D s op db)) := by
  cases op with
  | countPatterns keyPrefix =>
      rw [perform, countPatterns, outcome_query, whereLike_eq]
      have hlists := lists_dataOf (List.Perm.refl
        (((db.dataOf s).filter fun r => keyPrefix.isPrefixOf r.key).map MemoryData.key))
      refine ⟨_, ?_, hlists⟩
      rw [List.length_map]
      rfl
  | call op =>
      cases op with
      | load key =>
          rw [perform, load, outcome_query]
          rfl
      | save key data =>
          rw [perform, save, Contents.Answers, Postgres.format_document]
          cases D.jsonb data with
          | none => exact ⟨_, rfl⟩
          | some data => rfl
      | listKeys keyPrefix =>
          rw [perform, listKeys, outcome_query, wherePrefix_eq]
          exact ⟨_, rfl, lists_dataOf (List.mergeSort_perm _ _)⟩
      | delete key => rfl
      | saveEmbedding key embedding =>
          rw [perform, saveEmbedding, Contents.Answers, Postgres.format_vector]
          by_cases hdim : embedding.length ≠ D.embeddingDim
          · simp only [if_pos hdim]
            exact ⟨_, rfl⟩
          · simp only [if_neg hdim]
            cases D.vecToPg embedding with
            | none => exact ⟨_, rfl⟩
            | some vec => rfl
      | searchSimilar embedding limit keyPrefix =>
          rw [perform, searchSimilar, Contents.Answers, Postgres.format_vector]
          by_cases hdim : embedding.length ≠ D.embeddingDim
          · simp only [if_pos hdim]
            exact ⟨_, rfl⟩
          · simp only [if_neg hdim]
            cases D.vecToPg embedding with
            | none => exact ⟨_, rfl⟩
            | some vec =>
                simp only [outcome_query, wherePrefix_eq]
                exact ⟨_, rfl, finds_nearest hD vec limit⟩

theorem serves_from (hD : D.Searches) (requests : List (Scope × BackendOp V F))
    (db : PostgresStore V F) (s : Scope) : (db.contents s).Serves D.format
      (((serve D db requests).filter fun served => served.1 = s).map Prod.snd) := by
  induction requests generalizing db with
  | nil => exact trivial
  | cons request requests ih =>
      cases request with
      | mk s' op =>
          have hnext : (final (perform D s' op db)).contents s =
              if s = s' then (db.contents s').next D.format op else db.contents s :=
            contents_perform op
          have hrest := ih (final (perform D s' op db))
          by_cases hs : s' = s
          · have hfilter : (serve D db ((s', op) :: requests)).filter (fun served => served.1 = s) =
                (s', op, outcome (perform D s' op db)) ::
                  (serve D (final (perform D s' op db)) requests).filter
                    fun served => served.1 = s :=
              List.filter_cons_of_pos (decide_eq_true hs)
            rw [hfilter]
            subst hs
            rw [if_pos rfl] at hnext
            rw [hnext] at hrest
            exact ⟨answers_perform hD op, hrest⟩
          · have hfilter : (serve D db ((s', op) :: requests)).filter (fun served => served.1 = s) =
                (serve D (final (perform D s' op db)) requests).filter fun served => served.1 = s :=
              List.filter_cons_of_neg fun h => hs (of_decide_eq_true h)
            rw [if_neg (Ne.symm hs)] at hnext
            rw [hfilter, ← hnext]
            exact hrest

end Contents

/-- In every run of requests of all scopes, each scope is answered as if it had a store of its own
that remembers what was last saved under each key and finds keys by their literal prefix. -/
theorem postgres_serves (D : Postgres V F S) (hD : D.Searches)
    (requests : List (Scope × BackendOp V F)) (s : Scope) :
    Contents.empty.Serves D.format
      (((serve D empty requests).filter fun served => served.1 = s).map Prod.snd) :=
  serves_from hD requests empty s

/-- Documents are numbers, vectors are compared by their lengths, and nothing is missed. -/
def lengthPostgres : Postgres ℕ ℕ ℕ where
  embeddingDim := 1
  jsonb data := some data
  vecToPg embedding := some embedding
  collation x y := decide (x ≤ y)
  similarity x y := min x.length y.length
  le x y := decide (x ≤ y)
  nearest vec limit rows :=
    (rows.mergeSort fun x y =>
      decide (min vec.length y.embedding.length ≤ min vec.length x.embedding.length)).take limit

theorem lengthPostgres_searches : lengthPostgres.Searches where
  subperm vec limit rows :=
    (List.take_sublist limit _).subperm.trans (List.mergeSort_perm rows _).subperm
  bounded vec limit rows := List.length_take_le limit _
  ranked vec limit rows := by
    apply List.Pairwise.sublist (List.take_sublist limit _)
    apply List.pairwise_mergeSort
    · intro x y z hxy hyz
      exact decide_eq_true ((of_decide_eq_true hyz).trans (of_decide_eq_true hxy))
    · intro x y
      rw [Bool.or_eq_true]
      exact (le_total _ _).imp decide_eq_true decide_eq_true

/-- Two tenants save under keys that only a literal prefix tells apart. -/
def twoTenants : List (Scope × BackendOp ℕ ℕ) :=
  let other : Scope := ⟨"acme".toList, "web".toList⟩
  [(defaultScope, .call (.save "a%1".toList 1)), (other, .call (.save "a%1".toList 2)),
    (defaultScope, .call (.save "ab1".toList 3)), (other, .call (.delete "ab1".toList)),
    (defaultScope, .call (.saveEmbedding "a%1".toList [7])),
    (defaultScope, .call (.listKeys "a%".toList)), (defaultScope, .call (.load "a%1".toList)),
    (defaultScope, .call (.searchSimilar [8] 5 "a_".toList))]

theorem twoTenants_served :
    ((serve lengthPostgres empty twoTenants).filter fun served =>
      served.1 = defaultScope).length = 6 ∧
    Contents.empty.Serves lengthPostgres.format
      (((serve lengthPostgres empty twoTenants).filter fun served =>
        served.1 = defaultScope).map Prod.snd) :=
  ⟨rfl, postgres_serves lengthPostgres lengthPostgres_searches twoTenants defaultScope⟩

end PostgresStore

end Engramia.Storage
