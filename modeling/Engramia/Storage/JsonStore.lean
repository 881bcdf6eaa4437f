import Engramia.Storage.Paths
import Engramia.Library.Noninterference
import Mathlib.Data.List.Sort
import Mathlib.Data.List.Lex
import Mathlib.Data.Char

/-!
The JSON file store. Its state is the directory tree under the storage root and
the embedding indexes held in memory, one for each scope that was used. An
operation runs under a scope, may raise, and keeps what it did before it raised.

A document is a JSON value or a text that does not parse. Values, and what numpy
computes from vectors, are parameters.
-/
namespace Engramia.Storage
open Engramia.Library

inductive Doc (V : Type) where
  | json (v : V)
  | corrupt
deriving DecidableEq

inductive StorageError where
  | invalidKey
  | dimensionMismatch
  | file (e : FileError)
deriving DecidableEq

abbrev Files (V : Type) := FileTree Text (Doc V)
abbrev Index (F : Type) := OrderedDict Text (List F)

/-- JSON text for an embedding index, and numpy. -/
structure Platform (V F S : Type) where
  ofIndex : Index F → V
  toIndex : V → Index F
  normIsZero : List F → Bool
  similarity : List F → List F → S
  le : S → S → Bool

structure JsonStore (V F : Type) where
  files : Files V
  scopeEmbeddings : Scope → Option (Index F)

abbrev StoreM (V F : Type) := EStateM StorageError (JsonStore V F)

variable {V F S : Type}

section Calls

/-- A call that changes the directory tree. -/
def change (f : Files V → Except FileError (Files V)) : StoreM V F Unit := fun st =>
  match f st.files with
  | .ok files => .ok () { st with files := files }
  | .error e => .error (.file e) st

/-- A call that only looks at the directory tree. -/
def inspect {α : Type} (f : Files V → α) : StoreM V F α := fun st =>
  .ok (f st.files) st

def openRead (path : Path) : StoreM V F (Doc V) := fun st =>
  match st.files.read path with
  | .ok doc => .ok doc st
  | .error e => .error (.file e) st

def cached (s : Scope) : StoreM V F (Option (Index F)) := fun st =>
  .ok (st.scopeEmbeddings s) st

def cache (s : Scope) (index : Index F) : StoreM V F Unit := fun st =>
  .ok () { st with scopeEmbeddings := fun s' => if s' = s then some index else st.scopeEmbeddings s' }

end Calls

def embeddingsFile : Text :=
  ['_', 'e', 'm', 'b', 'e', 'd', 'd', 'i', 'n', 'g', 's', '.', 'j', 's', 'o', 'n']

def atomicWrite (path : Path) (data : V) : StoreM V F Unit := do
  change (·.mkdirs path.dropLast)
  let tmp := withSuffix path tmpSuffix
  let bak := withSuffix path bakSuffix
  change (·.write tmp (.json data))
  if ← inspect (·.present path) then
    change (·.replace path bak)
  change (·.replace tmp path)

/-- Remove a file if it is there. -/
def unlinkIfPresent (path : Path) : StoreM V F Unit := do
  if ← inspect (·.present path) then
    change (·.unlink path)

/-- The keys of the documents found below a root, in order. -/
def keysBelow (root : Path) (keyPrefix : Text) (files : Files V) : List Text :=
  let keys := ((files.below root).filter listed).map pathToKey
  (keys.filter fun key => keyPrefix.isPrefixOf key).insertionSort (· ≤ ·)

section Operations
variable (isalnum : Char → Bool) (P : Platform V F S) (s : Scope)

def pathOfKey (key : Text) : StoreM V F Path :=
  match keyToPath (effectiveRoot isalnum s) key with
  | some path => pure path
  | none => throw .invalidKey

def embeddingsPath : Path :=
  effectiveRoot isalnum s ++ [embeddingsFile]

/-- `_load_embeddings_for_root` -/
def loadEmbeddings : StoreM V F (Index F) := do
  if ← inspect (·.present (embeddingsPath isalnum s)) then
    match ← openRead (embeddingsPath isalnum s) with
    | .json v => pure (P.toIndex v)
    | .corrupt => pure .empty
  else pure .empty

def getEmbeddings : StoreM V F (Index F) := do
  match ← cached s with
  | some index => pure index
  | none =>
      let index ← loadEmbeddings isalnum P s
      cache s index
      pure index

/-- Put an index in memory and save it. -/
def saveEmbeddingsIndex (index : Index F) : StoreM V F Unit := do
  cache s index
  atomicWrite (embeddingsPath isalnum s) (P.ofIndex index)

def load (key : Text) : StoreM V F (Option V) := do
  let path ← pathOfKey isalnum s key
  if ← inspect (·.present path) then
    match ← openRead path with
    | .json v => pure (some v)
    | .corrupt => pure none
  else pure none

def save (key : Text) (data : V) : StoreM V F Unit := do
  let path ← pathOfKey isalnum s key
  atomicWrite path data

def listKeys (keyPrefix : Text) : StoreM V F (List Text) := do
  change (·.mkdirs (effectiveRoot isalnum s))
  inspect (keysBelow (effectiveRoot isalnum s) keyPrefix)

def delete (key : Text) : StoreM V F Unit := do
  let path ← pathOfKey isalnum s key
  unlinkIfPresent path
  unlinkIfPresent (withSuffix path bakSuffix)
  unlinkIfPresent (withSuffix path tmpSuffix)
  let embeddings ← getEmbeddings isalnum P s
  if (embeddings.get? key).isSome then
    saveEmbeddingsIndex isalnum P s (embeddings.discard (· = key))

/-- Whether a vector has another length than the vectors already stored. -/
def dimensionDiffers (embeddings : Index F) (embedding : List F) : Bool :=
  match embeddings.entries with
  | [] => false
  | (_, stored) :: _ => !embedding.isEmpty && embedding.length ≠ stored.length

def saveEmbedding (key : Text) (embedding : List F) : StoreM V F Unit := do
  let embeddings ← getEmbeddings isalnum P s
  if dimensionDiffers embeddings embedding then
    throw .dimensionMismatch
  saveEmbeddingsIndex isalnum P s (embeddings.set key embedding)

def searchSimilar (embedding : List F) (limit : Nat) (keyPrefix : Text) :
    StoreM V F (List (Text × S)) := do
  let embeddings ← getEmbeddings isalnum P s
  if dimensionDiffers embeddings embedding then
    throw .dimensionMismatch
  if P.normIsZero embedding then pure []
  else
    let candidates := embeddings.entries.filter fun (key, vec) =>
      keyPrefix.isPrefixOf key && !P.normIsZero vec
    let results := candidates.map fun (key, vec) => (key, P.similarity embedding vec)
    pure ((results.insertionSort fun x y => P.le y.2 x.2).take limit)

end Operations

inductive StorageOp (V F : Type) where
  | load (key : Text)
  | save (key : Text) (data : V)
  | listKeys (keyPrefix : Text)
  | delete (key : Text)
  | saveEmbedding (key : Text) (embedding : List F)
  | searchSimilar (embedding : List F) (limit : Nat) (keyPrefix : Text)

inductive Response (V S : Type) where
  | done
  | value (v : Option V)
  | keys (keys : List Text)
  | hits (hits : List (Text × S))
deriving DecidableEq

/-- An operation under the scope of the request it serves. -/
def perform (isalnum : Char → Bool) (P : Platform V F S) (r : Scope × StorageOp V F) :
    StoreM V F (Response V S) :=
  match r.2 with
  | .load key => do return .value (← load isalnum r.1 key)
  | .save key data => do save isalnum r.1 key data; return .done
  | .listKeys keyPrefix => do return .keys (← listKeys isalnum r.1 keyPrefix)
  | .delete key => do delete isalnum P r.1 key; return .done
  | .saveEmbedding key embedding => do
      saveEmbedding isalnum P r.1 key embedding; return .done
  | .searchSimilar embedding limit keyPrefix => do
      return .hits (← searchSimilar isalnum P r.1 embedding limit keyPrefix)

/-- A store opened on an empty directory: the default scope's index is loaded at once. -/
def newStore : JsonStore V F where
  files := .empty
  scopeEmbeddings := fun s => if s = defaultScope then some .empty else none

/-- Documents are numbers, vectors are compared by their lengths. -/
def lengthPlatform : Platform Nat Nat Nat where
  ofIndex index := index.entries.length
  toIndex _ := .empty
  normIsZero embedding := embedding.isEmpty
  similarity x y := min x.length y.length
  le x y := decide (x ≤ y)

end Engramia.Storage
