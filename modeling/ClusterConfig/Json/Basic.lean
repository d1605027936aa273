import ClusterConfig.Members
import ClusterConfig.Decimal.Binary64

/-!
# Documents

A document is a tree of objects with ordered members, arrays and scalars. Integers are exact and
never equal a float. Equality of documents ignores the order of members.
-/

set_option autoImplicit false

namespace ClusterConfig

/-- A document tree. -/
inductive Json where
  | null
  | bool (value : Bool)
  | int (value : Int)
  | float (value : Binary64)
  | str (value : String)
  | arr (items : List Json)
  | obj (members : List (String × Json))

namespace Json

instance : Inhabited Json := ⟨.null⟩

mutual

/-- Equality up to the order of members. -/
def same : Json → Json → Bool
  | .null, .null => true
  | .bool a, .bool b => a == b
  | .int a, .int b => a == b
  | .float a, .float b => a.same b
  | .str a, .str b => a == b
  | .arr xs, .arr ys => sameItems xs ys
  | .obj ms, .obj ns => ms.length == ns.length && sameMembers ms ns
  | _, _ => false

def sameItems : List Json → List Json → Bool
  | [], [] => true
  | x :: xs, y :: ys => same x y && sameItems xs ys
  | _, _ => false

/-- Every member of the first list has an equal value under its name in the second. -/
def sameMembers : List (String × Json) → List (String × Json) → Bool
  | [], _ => true
  | (name, value) :: rest, others =>
    (match Members.get? others name with
      | some other => same value other
      | none => false) && sameMembers rest others

end

instance : BEq Json := ⟨same⟩

def isNull : Json → Bool
  | .null => true
  | _ => false

def isObject : Json → Bool
  | .obj _ => true
  | _ => false

def isArray : Json → Bool
  | .arr _ => true
  | _ => false

def isString : Json → Bool
  | .str _ => true
  | _ => false

def isScalar : Json → Bool
  | .arr _ => false
  | .obj _ => false
  | _ => true

def str? : Json → Option String
  | .str value => some value
  | _ => none

def items? : Json → Option (List Json)
  | .arr items => some items
  | _ => none

/-- The members of an object; other documents have none. -/
def members : Json → List (String × Json)
  | .obj members => members
  | _ => []

def get? (doc : Json) (name : String) : Option Json := Members.get? doc.members name

/-- What is found under a chain of member names. -/
def getPath? : Json → List String → Option Json
  | doc, [] => some doc
  | doc, name :: rest => (doc.get? name).bind fun child => getPath? child rest

def strings (values : List String) : Json := .arr (values.map .str)

def ofMembers (values : Members String) : Json :=
  .obj (values.map fun entry => (entry.1, .str entry.2))

end Json

end ClusterConfig
