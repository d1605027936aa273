import ClusterConfig.Cluster.Basic
import ClusterConfig.Documents.Reading
import ClusterConfig.Json.MergePatch
import ClusterConfig.Json.Patch
import ClusterConfig.Json.StrategicMerge
import ClusterConfig.Patch.Reference
import ClusterConfig.Patch.Shape
import ClusterConfig.Yaml.Document

/-!
# Applying the patches of a node

Merge patches come first, then operations, then references. A reference leads to a list of
operations or to a strategic merge patch; a patch that is neither a list nor a mapping changes
nothing. What was applied before a failure stays.
-/

set_option autoImplicit false

namespace ClusterConfig.Patch

/-- Why operations that are well formed do not apply. -/
inductive OperationFailure where
  /-- A field does not fit the kind of the operation. -/
  | unreadable
  | failed (reason : Json.PatchError)
deriving DecidableEq

def OperationFailure.messages : OperationFailure → List String
  | .unreadable => ["failed to deserialize JSON patch operations"]
  | .failed reason => ["failed to apply JSON patch", reason.message]

inductive ApplyError where
  | mergePatchNotAMapping (index : Nat)
  | malformedOperation (index : Nat) (reason : ShapeError)
  | convertOperation (index : Nat)
  | applyOperation (index : Nat) (reason : Json.PatchError)
  | readReference (reference : String) (reason : FileError)
  | loadReference (reference : String) (reason : Documents.ReadError)
  | parseReference (reference : String)
  | malformedReference (reference : String) (index : Nat) (reason : ShapeError)
  | applyReference (reference : String) (reason : OperationFailure)
deriving DecidableEq

namespace ApplyError

/-- The texts of an error and of what caused it. -/
def messages : ApplyError → List String
  | .mergePatchNotAMapping index => ["inline merge patch #" ++ toString index ++ " is not a mapping"]
  | .malformedOperation index reason =>
    ["JSON patch operation #" ++ toString index ++ " is malformed", reason.message]
  | .convertOperation index =>
    ("failed to convert JSON patch operation #" ++ toString index) ::
      OperationFailure.messages .unreadable
  | .applyOperation index reason =>
    ("failed to apply JSON patch operation #" ++ toString index) ::
      OperationFailure.messages (.failed reason)
  | .readReference reference _ => ["failed to read patch " ++ Text.quoted reference]
  | .loadReference reference reason =>
    ("failed to load patch " ++ Text.quoted reference) :: reason.messages
  | .parseReference reference => ["patch " ++ Text.quoted reference ++ " is not valid YAML"]
  | .malformedReference reference index reason =>
    ["operation #" ++ toString index ++ " of patch " ++ Text.quoted reference ++ " is malformed",
      reason.message]
  | .applyReference reference reason =>
    ("failed to apply patch " ++ Text.quoted reference) :: reason.messages

end ApplyError

/-- A document and the variables that patches are read with. -/
structure State where
  doc : Json
  vars : Bindings

/-- What a step leaves, and whether it failed. -/
abbrev Step := State × Except ApplyError Unit

namespace Step

/-- Goes on with the next step unless this one failed. -/
def andThen (step : Step) (next : State → Step) : Step :=
  match step with
  | (state, .ok _) => next state
  | (state, .error e) => (state, .error e)

end Step

/-- Takes the steps of a list in order, up to the first that fails. -/
def eachInOrder {α : Type} (step : Nat → α → State → Step) : Nat → List α → State → Step
  | _, [], state => (state, .ok ())
  | index, item :: rest, state =>
    (step index item state).andThen (eachInOrder step (index + 1) rest)

def applyMerge (index : Nat) (patch : Json) (state : State) : Step :=
  if patch.isObject then ({ state with doc := state.doc.mergePatch patch }, .ok ())
  else (state, .error (.mergePatchNotAMapping index))

/-- Applies operations together, all or none. -/
def applyOperations (operations : List Json) (state : State) :
    State × Except OperationFailure Unit :=
  match Json.PatchOp.listOfJson? operations with
  | none => (state, .error .unreadable)
  | some ops =>
    match Json.applyPatch state.doc ops with
    | (doc, none) => ({ state with doc }, .ok ())
    | (doc, some reason) => ({ state with doc }, .error (.failed reason))

def applyOperation (index : Nat) (operation : LooseOp) (state : State) : Step :=
  match checkOperation operation with
  | .error reason => (state, .error (.malformedOperation index reason))
  | .ok _ =>
    let (state, result) := applyOperations [operation.toJson] state
    (state, result.mapError fun failure =>
      match failure with
      | .unreadable => .convertOperation index
      | .failed reason => .applyOperation index reason)

/-- The text that a reference leads to, and the variables after it is read. -/
def resolve (source : Documents.Source) (reference : String) (vars : Bindings) :
    Bindings × Except ApplyError String :=
  match Reference.parse reference with
  | .inline text => (vars, .ok text)
  | .literal path => (vars, (source.files.readText path).mapError (.readReference reference))
  | .file path =>
    match source.files.read path with
    | .error reason => (vars, .error (.readReference reference reason))
    | .ok content =>
      let (vars, text) := Documents.readBytes source.decrypt path content vars
      (vars, text.mapError (.loadReference reference))

/-- Applies a patch that a reference led to. -/
def applyResolved (reference : String) (patch : Json) (state : State) : Step :=
  match patch with
  | .arr operations =>
    match checkAll operations with
    | (index, reason) :: _ => (state, .error (.malformedReference reference index reason))
    | [] =>
      let (state, result) := applyOperations operations state
      (state, result.mapError (.applyReference reference))
  | .obj members => ({ state with doc := state.doc.strategicMerge (.obj members) }, .ok ())
  | _ => (state, .ok ())

def applyReference (source : Documents.Source) (_index : Nat) (reference : String) (state : State) :
    Step :=
  match resolve source reference state.vars with
  | (vars, .error e) => ({ state with vars }, .error e)
  | (vars, .ok text) =>
    match Yaml.parseJson? text with
    | none => ({ state with vars }, .error (.parseReference reference))
    | some patch => applyResolved reference patch { state with vars }

/-- The patches of a node, those of its role first. -/
structure PatchSet where
  merges : List Json := []
  operations : List LooseOp := []
  references : List String := []

namespace PatchSet

def ofSettings (settings : Settings) : PatchSet :=
  ⟨settings.mergePatches, settings.operations, settings.patches⟩

def isEmpty (set : PatchSet) : Bool :=
  set.merges.isEmpty && set.operations.isEmpty && set.references.isEmpty

def apply (source : Documents.Source) (set : PatchSet) (state : State) : Step :=
  ((eachInOrder applyMerge 0 set.merges state).andThen
    (eachInOrder applyOperation 0 set.operations)).andThen
    (eachInOrder (applyReference source) 0 set.references)

end PatchSet

end ClusterConfig.Patch
