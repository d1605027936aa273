import ClusterConfig.Json.Basic
import ClusterConfig.Decimal.Shortest

/-!
# Loosely typed operations

A patch operation as it is written in a cluster description. Every field is optional, so that an
operation that is not well formed can still be held and reported. An explicit `null` value differs
from a missing one.
-/

set_option autoImplicit false

namespace ClusterConfig

/-- A patch operation with optional fields. -/
structure LooseOp where
  op : Option String := none
  path : Option String := none
  source : Option String := none
  value : Option Json := none

namespace LooseOp

/-- What a document is, for a message about a wrong type. -/
def describe : Json → String
  | .null => "null"
  | .bool true => "boolean \x60true\x60"
  | .bool false => "boolean \x60false\x60"
  | .int value => "integer \x60" ++ toString value ++ "\x60"
  | .float value => "floating point \x60" ++ value.text .positional ++ "\x60"
  | .str value => "string \x22" ++ value ++ "\x22"
  | .arr _ => "sequence"
  | .obj _ => "map"

/-- A text field; `null` counts as missing. -/
def textField : Json → Except String (Option String)
  | .null => .ok none
  | .str value => .ok (some value)
  | value => .error ("invalid type: " ++ describe value ++ ", expected a string")

def setField (spec : LooseOp) (name : String) (value : Json) : Except String LooseOp :=
  match name with
  | "op" => (textField value).map fun op => { spec with op }
  | "path" => (textField value).map fun path => { spec with path }
  | "from" => (textField value).map fun source => { spec with source }
  | "value" => .ok { spec with value := some value }
  | _ => .ok spec

def fieldOrder : List String := ["op", "path", "from", "value"]

/-- Reads an operation from an object, or from a list of its fields in order. -/
def ofJson : Json → Except String LooseOp
  | .obj members => members.foldlM (fun spec member => spec.setField member.1 member.2) {}
  | .arr items =>
    if items.length ≤ fieldOrder.length then
      (fieldOrder.zip items).foldlM (fun spec field => spec.setField field.1 field.2) {}
    else .error ("invalid length " ++ toString items.length ++ ", expected fewer elements in array")
  | value => .error ("invalid type: " ++ describe value ++ ", expected struct ConfigPatch")

def optional (name : String) : Option Json → List (String × Json)
  | none => []
  | some value => [(name, value)]

/-- The document of an operation; missing fields are left out. -/
def toJson (spec : LooseOp) : Json :=
  .obj (optional "op" (spec.op.map .str) ++ optional "path" (spec.path.map .str) ++
    optional "from" (spec.source.map .str) ++ optional "value" spec.value)

end LooseOp

instance : BEq LooseOp :=
  ⟨fun a b => a.op == b.op && a.path == b.path && a.source == b.source && a.value == b.value⟩

end ClusterConfig
