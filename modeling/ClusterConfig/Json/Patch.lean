import ClusterConfig.Json.Pointer

/-!
# Patch operations

A patch is a list of operations on a document. Every operation that was carried out has inverses;
when one of a list fails, the inverses of those before it are carried out, the latest first.
-/

set_option autoImplicit false

namespace ClusterConfig.Json

/-- One operation of a patch. -/
inductive PatchOp where
  | add (path : Pointer) (value : Json)
  | remove (path : Pointer)
  | replace (path : Pointer) (value : Json)
  | move (source path : Pointer)
  | copy (source path : Pointer)
  | test (path : Pointer) (value : Json)

/-- Why an operation does not apply. -/
inductive PatchFailure where
  | invalidPath
  | invalidSource
  | mismatch
  | moveInsideItself
deriving DecidableEq

namespace PatchFailure

def message : PatchFailure → String
  | .invalidPath => "path is invalid"
  | .invalidSource => "\"from\" path is invalid"
  | .mismatch => "value did not match"
  | .moveInsideItself => "cannot move the value inside itself"

end PatchFailure

namespace PatchOp

def path : PatchOp → Pointer
  | .add path _ => path
  | .remove path => path
  | .replace path _ => path
  | .move _ path => path
  | .copy _ path => path
  | .test path _ => path

def pointer? (value : Json) : Option Pointer := value.str?.bind Pointer.parse?

/-- The operation of a kind with its fields given by position. -/
def ofFields? (kind : String) (fields : List Json) : Option PatchOp :=
  match kind, fields with
  | "add", [path, value] => (pointer? path).map (.add · value)
  | "remove", [path] => (pointer? path).map .remove
  | "replace", [path, value] => (pointer? path).map (.replace · value)
  | "move", [source, path] => do some (.move (← pointer? source) (← pointer? path))
  | "copy", [source, path] => do some (.copy (← pointer? source) (← pointer? path))
  | "test", [path, value] => (pointer? path).map (.test · value)
  | _, _ => none

/-- The names of the fields of each kind of operation, in their order. -/
def fieldNames : String → List String
  | "add" => ["path", "value"]
  | "remove" => ["path"]
  | "replace" => ["path", "value"]
  | "move" => ["from", "path"]
  | "copy" => ["from", "path"]
  | "test" => ["path", "value"]
  | _ => []

/-- The operation that a document describes: an object with an `op`, or a list of the kind and
the fields in their order. -/
def ofJson? : Json → Option PatchOp
  | .obj members => do
    let kind ← (Members.get? members "op").bind str?
    let fields ← (fieldNames kind).mapM fun name => Members.get? members name
    ofFields? kind fields
  | .arr (.str kind :: fields) => ofFields? kind fields
  | _ => none

def listOfJson? (operations : List Json) : Option (List PatchOp) := operations.mapM ofJson?

end PatchOp

/-- The names of the container and the last name of a chain. -/
def splitLast : List String → Option (List String × String)
  | [] => none
  | [name] => some ([], name)
  | name :: rest => (splitLast rest).map fun split => (name :: split.1, split.2)

/-- Adds `value` under `name` of a container; also gives the value that was replaced. -/
def addChild (name : String) (value : Json) : Json → Option (Json × Option Json)
  | .obj members => some (.obj (Members.put members name value), Members.get? members name)
  | .arr items =>
    if name = "-" then some (.arr (items ++ [value]), none)
    else
      match index? name with
      | some place =>
        if place ≤ items.length then some (.arr (items.insertIdx place value), none) else none
      | none => none
  | _ => none

/-- Removes `name` from a container; also gives the removed value. The name `-` stands for the
last item if `allowLast`. -/
def removeChild (allowLast : Bool) (name : String) : Json → Option (Json × Json)
  | .obj members =>
    (Members.get? members name).map fun value => (.obj (Members.remove members name), value)
  | .arr items =>
    if allowLast && name == "-" then
      items.getLast?.map fun value => (.arr items.dropLast, value)
    else
      (index? name).bind fun place =>
        items[place]?.map fun value => (.arr (items.eraseIdx place), value)
  | _ => none

def addAt? (doc : Json) (path : Pointer) (value : Json) : Option (Json × Option Json) :=
  match splitLast path.names with
  | none => some (value, some doc)
  | some (parent, name) => modifyAt? (addChild name value) doc parent

def removeAt? (allowLast : Bool) (doc : Json) (path : Pointer) : Option (Json × Json) :=
  match splitLast path.names with
  | none => none
  | some (parent, name) => modifyAt? (removeChild allowLast name) doc parent

def replaceAt? (doc : Json) (path : Pointer) (value : Json) : Option (Json × Json) :=
  modifyAt? (fun old => some (value, old)) doc path.names

/-- The document an operation leaves, and its inverses in the order they are carried out. What an
operation that fails halfway did stays done. -/
structure Outcome where
  doc : Json
  undo : Except PatchFailure (List PatchOp)

def addOutcome (doc : Json) (path : Pointer) (value : Json)
    (undo : Option Json → List PatchOp) : Outcome :=
  match addAt? doc path value with
  | none => ⟨doc, .error .invalidPath⟩
  | some (after, old) => ⟨after, .ok (undo old)⟩

/-- Undoing an addition puts the replaced value back, or removes what was not there. -/
def undoAdd (path : Pointer) : Option Json → List PatchOp
  | none => [.remove path]
  | some old => [.add path old]

/-- Undoing a move moves back and then restores the replaced value. -/
def undoMove (source path : Pointer) : Option Json → List PatchOp
  | none => [.move path source]
  | some old => [.move path source, .add path old]

/-- One operation. -/
def applyOp (allowLast : Bool) (doc : Json) : PatchOp → Outcome
  | .add path value => addOutcome doc path value (undoAdd path)
  | .remove path =>
    match removeAt? allowLast doc path with
    | none => ⟨doc, .error .invalidPath⟩
    | some (after, old) => ⟨after, .ok [.add path old]⟩
  | .replace path value =>
    match replaceAt? doc path value with
    | none => ⟨doc, .error .invalidPath⟩
    | some (after, old) => ⟨after, .ok [.replace path old]⟩
  | .move source path =>
    if source.names.isPrefixOf path.names && source.names.length ≠ path.names.length then
      ⟨doc, .error .moveInsideItself⟩
    else
      match removeAt? allowLast doc source with
      | none => ⟨doc, .error .invalidSource⟩
      | some (between, value) => addOutcome between path value (undoMove source path)
  | .copy source path =>
    match doc.at? source.names with
    | none => ⟨doc, .error .invalidSource⟩
    | some value => addOutcome doc path value (undoAdd path)
  | .test path value =>
    match doc.at? path.names with
    | none => ⟨doc, .error .invalidPath⟩
    | some found => if found.same value then ⟨doc, .ok []⟩ else ⟨doc, .error .mismatch⟩

/-- Carries out inverses, the document staying as it is where one does not apply. -/
def undoAll (doc : Json) (ops : List PatchOp) : Json :=
  ops.foldl (fun doc op => (applyOp true doc op).doc) doc

/-- A failed operation of a list. -/
structure PatchError where
  place : Nat
  path : Pointer
  failure : PatchFailure
deriving DecidableEq

namespace PatchError

def message (e : PatchError) : String :=
  "operation '/" ++ toString e.place ++ "' failed at path '" ++ e.path.text ++ "': " ++
    e.failure.message

end PatchError

/-- Runs operations from a place in the list on; `undo` holds the inverses so far, the latest
first. -/
def runOps (doc : Json) (place : Nat) (undo : List PatchOp) :
    List PatchOp → Json × Option PatchError
  | [] => (doc, none)
  | op :: rest =>
    match applyOp false doc op with
    | ⟨after, .ok inverse⟩ => runOps after (place + 1) (inverse ++ undo) rest
    | ⟨after, .error failure⟩ => (undoAll after undo, some ⟨place, op.path, failure⟩)

/-- Applies a patch. With an error the inverses were carried out. -/
def applyPatch (doc : Json) (ops : List PatchOp) : Json × Option PatchError := runOps doc 0 [] ops

end ClusterConfig.Json
