import Engramia.Storage.KeyMap

/-!
What a storage backend is for. Each scope has contents of its own, documents and embeddings by
key, and is answered from them: a load with the document, a listing with the keys, a search with
embeddings and how similar they are. The order in which keys are listed, and which of the similar
embeddings are found, are left open.
-/
namespace Engramia.Storage
open Engramia.Library

variable {V F S ε : Type}

/-- The requests of the abstract class: the calls that are there already, and `count_patterns`. -/
inductive BackendOp (V F : Type) where
  | call (op : StorageOp V F)
  | countPatterns (keyPrefix : Text)

inductive BackendAnswer (V S : Type) where
  | response (r : Response V S)
  | count (n : ℕ)

/-- What a backend keeps of a document and of an embedding, `none` where it refuses them, and how
it compares embeddings. -/
structure Format (V F S : Type) where
  document : V → Option V
  vector : List F → Option (List F)
  similarity : List F → List F → S
  le : S → S → Bool

structure Contents (V F : Type) where
  documents : KeyMap V
  embeddings : KeyMap (List F)

namespace Contents
variable (format : Format V F S)

def empty : Contents V F := ⟨fun _ => none, fun _ => none⟩

/-- What is refused leaves the contents as they were. -/
def next (c : Contents V F) : BackendOp V F → Contents V F
  | .call (.save key data) =>
      match format.document data with
      | some data => { c with documents := Function.update c.documents key (some data) }
      | none => c
  | .call (.delete key) =>
      { documents := Function.update c.documents key none
        embeddings := Function.update c.embeddings key none }
  | .call (.saveEmbedding key embedding) =>
      match format.vector embedding with
      | some vec => { c with embeddings := Function.update c.embeddings key (some vec) }
      | none => c
  | _ => c

/-- The keys are those of the documents that begin with the prefix. -/
def Lists (c : Contents V F) (keyPrefix : Text) (keys : List Text) : Prop :=
  keys.Nodup ∧ ∀ k, k ∈ keys ↔ c.documents k ≠ none ∧ keyPrefix <+: k

/-- Hits are embeddings of keys that begin with the prefix, the most similar first. -/
structure Finds (c : Contents V F) (vec : List F) (limit : ℕ) (keyPrefix : Text)
    (hits : List (Text × S)) : Prop where
  bounded : hits.length ≤ limit
  distinct : (hits.map Prod.fst).Nodup
  ranked : hits.Pairwise fun x y => format.le y.2 x.2
  stored : ∀ hit ∈ hits, keyPrefix <+: hit.1 ∧
    ∃ embedding, c.embeddings hit.1 = some embedding ∧ hit.2 = format.similarity vec embedding

/-- What may be answered. -/
def Answers (c : Contents V F) (op : BackendOp V F) (answer : Except ε (BackendAnswer V S)) :
    Prop :=
  match op with
  | .call (.load key) => answer = .ok (.response (.value (c.documents key)))
  | .call (.save _ data) =>
      match format.document data with
      | some _ => answer = .ok (.response .done)
      | none => ∃ e, answer = .error e
  | .call (.listKeys keyPrefix) =>
      ∃ keys, answer = .ok (.response (.keys keys)) ∧ c.Lists keyPrefix keys
  | .call (.delete _) => answer = .ok (.response .done)
  | .call (.saveEmbedding _ embedding) =>
      match format.vector embedding with
      | some _ => answer = .ok (.response .done)
      | none => ∃ e, answer = .error e
  | .call (.searchSimilar embedding limit keyPrefix) =>
      match format.vector embedding with
      | some vec =>
          ∃ hits, answer = .ok (.response (.hits hits)) ∧ c.Finds format vec limit keyPrefix hits
      | none => ∃ e, answer = .error e
  | .countPatterns keyPrefix =>
      ∃ keys, answer = .ok (.count keys.length) ∧ c.Lists keyPrefix keys

/-- Requests are answered, one after the other, from the contents. -/
def Serves : Contents V F → List (BackendOp V F × Except ε (BackendAnswer V S)) → Prop
  | _, [] => True
  | c, (op, answer) :: rest => c.Answers format op answer ∧ Serves (c.next format op) rest

end Contents

end Engramia.Storage
