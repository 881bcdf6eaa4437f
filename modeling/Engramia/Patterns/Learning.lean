import Engramia.Core.Stores
import Engramia.Patterns.Redaction
import Engramia.Storage.KeyMap

/-!
Storing a successful run as a pattern. A call counts the patterns, looks for a
near-duplicate, redacts, and then writes to one store after another: the record,
its embedding, its governance columns, the evaluation history and the counters.

The store holds one scope. Its two backends differ in the vectors they refuse and
in what they do with the governance columns. A storage call that raises leaves the
documents as they were, but the JSON index is changed in memory before it is saved.
-/
namespace Engramia.Patterns
open Engramia.Library Engramia.Storage

inductive Backend where
  | json
  | postgres (embeddingDim : Nat)
deriving DecidableEq

/-- Whether each of the keys has a document of its own. A key of the database always has. -/
def Backend.KeepsApart (backend : Backend) (keys : Set Text) : Prop :=
  backend = .json → ClearKeys keys

/-- A run that saves under such keys only. -/
structure ApartRun (backend : Backend) {Op : Type} (savedKeys : Op → List Text) where
  ops : List Op
  apart : backend.KeepsApart {key | ∃ op ∈ ops, key ∈ savedKeys op}

inductive OnDuplicate where
  | replaceWithBetter
  | keepBoth
  | skip
deriving DecidableEq

/-- A stored pattern: `task` is absent when the document holds no such text. -/
structure Record where
  task : Option Text
  design : Fields
  successScore : Option ℚ
  reuseCount : Nat
  timestamp : ℚ
  authorKeyId : Option Text

/-- The governance columns of a row. -/
structure Columns where
  classification : Option Text
  source : Option Text
  runId : Option Text
  author : Option Text
  redacted : Bool

/-- What a record says of an evaluation. -/
structure EvalScores where
  overall : ℚ
  feedback : Text
deriving DecidableEq

abbrev EvalRecord : Type := Core.EvalRecord ℚ EvalScores

def EvalRecord.overall (e : EvalRecord) : ℚ := e.scores.overall

structure PatternStore (F : Type) where
  patterns : OrderedDict Text Record
  columns : Text → Columns
  embeddings : Index F
  evals : List EvalRecord

/-- The calls of `learn` on the storage that may raise. -/
inductive StorageCall where
  | countKeys
  | findDuplicate
  | save
  | saveEmbedding
  | savePatternMeta
  | saveEval
  | recordRun
  | recount
deriving DecidableEq

inductive LearnError where
  | storeFull
  | invalidScore
  | provider
  | dimensionMismatch
  | storage (call : StorageCall)
deriving DecidableEq

structure LearnCall where
  task : Text
  code : Text
  evalScore : ℚ
  output : Option Text
  runId : Option Text
  classification : Text
  source : Text
  author : Option Text
  onDuplicate : OnDuplicate

/-- What a call meets: the clock, the random part of a new key, the embedding
provider if there is one, and which storage calls raise. -/
structure Env (F : Type) where
  now : ℚ
  stamp : Text
  embeddings : Option (Text → Option (List F))
  fails : StorageCall → Bool

structure LearningService where
  backend : Backend
  redaction : Option (List RedactionHook)
  text : TextMethods

structure LearnResult where
  stored : Bool
  patternCount : Nat
deriving DecidableEq

abbrev LearnM (F : Type) := EStateM LearnError (PatternStore F)

def maxPatternCount : Nat := 100000

def taskField : Text := ['t', 'a', 's', 'k']
def codeField : Text := ['c', 'o', 'd', 'e']
def outputField : Text := ['o', 'u', 't', 'p', 'u', 't']
def classificationField : Text :=
  ['c', 'l', 'a', 's', 's', 'i', 'f', 'i', 'c', 'a', 't', 'i', 'o', 'n']
def sourceField : Text := ['s', 'o', 'u', 'r', 'c', 'e']

/-- `_pattern_key`, after the hash, the clock and the random suffix are known. -/
def patternKey (stamp : Text) : Text := patternsPrefix ++ stamp

variable {F : Type}

def storageCall (env : Env F) (call : StorageCall) : LearnM F Unit :=
  if env.fails call then throw (.storage call) else pure ()

def listPatterns (patterns : OrderedDict Text Record) : List Text :=
  (patterns.entries.map Prod.fst).insertionSort (· ≤ ·)

section Learn
variable (svc : LearningService) (env : Env F) (c : LearnCall)

def isDuplicate (task : Text) (existing : Record) : Bool :=
  match existing.task with
  | some existingTask => decide (Duplicate svc.text existingTask task)
  | none => false

/-- The pattern under a key, if its task is a near-duplicate. -/
def duplicateAt (task : Text) (patterns : OrderedDict Text Record) (key : Text) :
    Option (Text × Record) :=
  (patterns.get? key).bind fun existing =>
    if isDuplicate svc task existing then some (key, existing) else none

/-- The first such pattern in key order. -/
def findDuplicate (task : Text) (patterns : OrderedDict Text Record) :
    Option (Text × Record) :=
  (listPatterns patterns).findSome? (duplicateAt svc task patterns)

def existing (patterns : OrderedDict Text Record) : Option (Text × Record) :=
  if c.onDuplicate = .keepBoth then none else findDuplicate svc c.task patterns

/-- Whether the existing record stays. -/
def keepsExisting (found : Record) : Bool :=
  c.onDuplicate = .skip || decide (c.evalScore ≤ found.successScore.getD 0)

def design : Fields :=
  let d : Fields := ((OrderedDict.empty.set codeField c.code).set classificationField
    c.classification).set sourceField c.source
  match c.output with
  | some output => d.set outputField output
  | none => d

/-- The design as it is stored, and whether it was redacted. -/
def redactedDesign : Fields × Bool :=
  match svc.redaction with
  | none => (design c, false)
  | some hooks =>
      let (clean, findings) := process hooks (design c) (OrderedDict.empty.set taskField c.task)
      if findings.isEmpty then (design c, false) else (clean.discard (· = taskField), true)

def newRecord : Record where
  task := some c.task
  design := (redactedDesign svc c).1
  successScore := some c.evalScore
  reuseCount := 0
  timestamp := env.now
  authorKeyId := c.author.filter fun author => !author.isEmpty

/-- Whether the backend takes no vector of this length. -/
def refuses (index : Index F) (embedding : List F) : Bool :=
  match svc.backend with
  | .json => dimensionDiffers index embedding
  | .postgres dim => embedding.length ≠ dim

def putEmbedding (key : Text) (embedding : List F) : LearnM F Unit :=
  modify fun st => { st with embeddings := st.embeddings.set key embedding }

def saveEmbedding (key : Text) (embedding : List F) : LearnM F Unit := do
  if refuses svc (← get).embeddings embedding then throw .dimensionMismatch
  match svc.backend with
  | .json =>
      putEmbedding key embedding
      storageCall env .saveEmbedding
  | .postgres _ =>
      storageCall env .saveEmbedding
      putEmbedding key embedding

def embed (key : Text) : LearnM F Unit :=
  match env.embeddings with
  | none => pure ()
  | some provider =>
      match provider c.task with
      | none => throw .provider
      | some embedding => saveEmbedding svc env key embedding

def mirrorLabels (r : Record) : Record :=
  { r with design := (r.design.set classificationField c.classification).set sourceField c.source }

def Columns.next (cols : Columns) (redacted : Bool) : Columns where
  classification := some c.classification
  source := some c.source
  runId := c.runId <|> cols.runId
  author := c.author <|> cols.author
  redacted := redacted

/-- The columns of a row that exists, with the labels mirrored into its design. -/
def updateMeta (key : Text) (redacted : Bool) (st : PatternStore F) : PatternStore F :=
  match st.patterns.get? key with
  | none => st
  | some r =>
      { st with
        patterns := st.patterns.set key (mirrorLabels c r)
        columns := Function.update st.columns key ((st.columns key).next c redacted) }

/-- The base class does nothing. Over Postgres an error is logged and dropped. -/
def savePatternMeta (key : Text) (redacted : Bool) : LearnM F Unit :=
  match svc.backend with
  | .json => pure ()
  | .postgres _ =>
      if env.fails .savePatternMeta then pure ()
      else modify (updateMeta c key redacted)

def evalRecord (key : Text) : EvalRecord where
  agentName := key
  task := c.task
  scores := ⟨c.evalScore, []⟩
  timestamp := env.now

/-- `EvalStore.save` of a record. -/
def storeEval (evals : List EvalRecord) (e : EvalRecord) : List EvalRecord :=
  Core.saveEval e.agentName e.task e.scores e.timestamp (some evals)

def saveEval (key : Text) : LearnM F Unit := do
  storageCall env .saveEval
  modify fun st => { st with evals := storeEval st.evals (evalRecord env c key) }

/-- The evaluation history and the counters. The event collector never raises. -/
def recordLearn (key : Text) : LearnM F LearnResult := do
  saveEval env c key
  storageCall env .recordRun
  storageCall env .recount
  return ⟨true, (← get).patterns.entries.length⟩

/-- The steps after the record is written. -/
def finish (key : Text) : LearnM F LearnResult := do
  embed svc env c key
  savePatternMeta svc env c key (redactedDesign svc c).2
  recordLearn env c key

def learnUnder (key : Text) : LearnM F LearnResult := do
  if ¬ (0 ≤ c.evalScore ∧ c.evalScore ≤ 10) then throw .invalidScore
  storageCall env .save
  modify fun st => { st with patterns := st.patterns.set key (newRecord svc env c) }
  finish svc env c key

/-- Keep the existing record, write over it, or write under a new key. -/
def resolve (count : Nat) : LearnM F LearnResult := do
  match existing svc c (← get).patterns with
  | some (key, found) =>
      if keepsExisting c found then return ⟨false, count⟩ else learnUnder svc env c key
  | none => learnUnder svc env c (patternKey env.stamp)

def learn : LearnM F LearnResult := do
  storageCall env .countKeys
  let count := (← get).patterns.entries.length
  if maxPatternCount ≤ count then throw .storeFull
  if c.onDuplicate ≠ .keepBoth then storageCall env .findDuplicate
  resolve svc env c count

end Learn

def emptyPatternStore : PatternStore F where
  patterns := .empty
  columns _ := ⟨none, none, none, none, false⟩
  embeddings := .empty
  evals := []

/-- The embedding provider is down. -/
def outageEnv : Env Nat where
  now := 0
  stamp := "a1".toList
  embeddings := some fun _ => none
  fails _ := false

def sortCall : LearnCall where
  task := "sort a list".toList
  code := "sorted(xs)".toList
  evalScore := 9
  output := none
  runId := none
  classification := "internal".toList
  source := "api".toList
  author := none
  onDuplicate := .replaceWithBetter

def plainService : LearningService := ⟨.json, none, asciiText⟩

end Engramia.Patterns
