import ClusterConfig.Patch.LooseOp
import ClusterConfig.Text.Quoted

/-!
# The shape of a patch operation

An operation has to name a known kind and a path, an addition needs a value, a move or copy needs
a source, and paths begin with a slash unless they are empty. Fields that a kind ignores are
accepted.
-/

set_option autoImplicit false

namespace ClusterConfig.Patch

/-- The kinds of patch operations. -/
inductive OpKind where
  | add
  | remove
  | replace
  | move
  | copy
  | test
deriving DecidableEq

namespace OpKind

def name : OpKind → String
  | .add => "add"
  | .remove => "remove"
  | .replace => "replace"
  | .move => "move"
  | .copy => "copy"
  | .test => "test"

def all : List OpKind := [.add, .remove, .replace, .move, .copy, .test]

def ofName? (name : String) : Option OpKind := all.find? fun kind => kind.name == name

end OpKind

/-- Why an operation is not well formed. -/
inductive ShapeError where
  | notAMapping
  | malformed (reason : String)
  | missingOp
  | unknownOp (op : String)
  | missingPath (kind : OpKind)
  | invalidPointer (path : String)
  | missingValue
  | missingFrom (kind : OpKind)
deriving DecidableEq

namespace ShapeError

def message : ShapeError → String
  | .notAMapping => "operation is not a mapping"
  | .malformed reason => "operation is malformed: " ++ reason
  | .missingOp => "operation has no \"op\""
  | .unknownOp op =>
    "unknown operation " ++ Text.quoted op ++
      ", expected one of add, remove, replace, move, copy, test"
  | .missingPath kind => Text.quoted kind.name ++ " operation has no \"path\""
  | .invalidPointer path =>
    "\"path\" " ++ Text.quoted path ++ " is not a JSON pointer, it must be empty or start with '/'"
  | .missingValue => "\"add\" operation has no \"value\""
  | .missingFrom kind => Text.quoted kind.name ++ " operation has no \"from\""

end ShapeError

def checkPointer (path : String) : Except ShapeError Unit :=
  match path.toList with
  | [] => .ok ()
  | '/' :: _ => .ok ()
  | _ => .error (.invalidPointer path)

/-- The kind of a well-formed operation. -/
def checkOperation (spec : LooseOp) : Except ShapeError OpKind := do
  let op ← spec.op.elim (.error .missingOp) .ok
  let kind ← (OpKind.ofName? op).elim (.error (.unknownOp op)) .ok
  let path ← spec.path.elim (.error (.missingPath kind)) .ok
  checkPointer path
  match kind with
  | .add => if spec.value.isNone then .error .missingValue
  | .move | .copy => spec.source.elim (.error (.missingFrom kind)) checkPointer
  | .remove | .replace | .test => .ok ()
  .ok kind

/-- The kind of an operation given as a document. -/
def checkValue (value : Json) : Except ShapeError OpKind :=
  if value.isObject then
    match LooseOp.ofJson value with
    | .error reason => .error (.malformed reason)
    | .ok spec => checkOperation spec
  else .error .notAMapping

/-- The operations that are not well formed, with their places. -/
def checkAll (operations : List Json) : List (Nat × ShapeError) :=
  operations.zipIdx.filterMap fun (operation, place) =>
    match checkValue operation with
    | .error e => some (place, e)
    | .ok _ => none

end ClusterConfig.Patch
