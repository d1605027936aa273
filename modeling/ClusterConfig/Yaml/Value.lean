import ClusterConfig.Yaml.Node
import ClusterConfig.Yaml.Plain

/-!
# YAML values

A value keeps what a document has and a JSON text has not: tags, mapping keys of any kind, and
numbers that are not finite. Equality of values ignores the order of mapping entries.
-/

set_option autoImplicit false

namespace ClusterConfig.Yaml

inductive Value where
  | null
  | bool (value : Bool)
  | int (value : Int)
  | float (value : Binary64)
  | str (value : String)
  | seq (items : List Value)
  | map (entries : List (Value × Value))
  | tagged (tag : String) (value : Value)

namespace Value

/-- A tag without its exclamation mark. -/
def bareTag (tag : String) : String :=
  match tag.toList with
  | '!' :: c :: rest => String.ofList (c :: rest)
  | _ => tag

mutual

def same : Value → Value → Bool
  | .null, .null => true
  | .bool a, .bool b => a == b
  | .int a, .int b => a == b
  | .float a, .float b => (a.isNaN && b.isNaN) || a.same b
  | .str a, .str b => a == b
  | .seq xs, .seq ys => sameItems xs ys
  | .map xs, .map ys => xs.length == ys.length && sameEntries xs ys
  | .tagged s a, .tagged t b => bareTag s == bareTag t && same a b
  | _, _ => false

def sameItems : List Value → List Value → Bool
  | [], [] => true
  | x :: xs, y :: ys => same x y && sameItems xs ys
  | _, _ => false

/-- Every entry of the first list has an equal one in the second. -/
def sameEntries : List (Value × Value) → List (Value × Value) → Bool
  | [], _ => true
  | (key, value) :: rest, others =>
    others.any (fun other => same key other.1 && same value other.2) && sameEntries rest others

end

instance : BEq Value := ⟨same⟩

def str? : Value → Option String
  | .str value => some value
  | _ => none

/-- The value inside all tags. -/
def untagged : Value → Value
  | .tagged _ value => untagged value
  | value => value

def get? (entries : List (Value × Value)) (name : String) : Option Value :=
  (entries.find? fun entry => entry.1 == .str name).map (·.2)

def ofPlain (text : String) : Plain → Option Value
  | .null => some .null
  | .bool value => some (.bool value)
  | .int value => some (.int value)
  | .wide => none
  | .float value => some (.float value)
  | .text => some (.str text)

/-- The name of a local tag, which starts with an exclamation mark. -/
def localTag? (tag : Option String) : Option String := do
  match (← tag).toList with
  | '!' :: name => some (String.ofList name)
  | _ => none

def hasDuplicate : List (Value × Value) → Bool
  | [] => false
  | (key, _) :: rest => rest.any (fun other => key == other.1) || hasDuplicate rest

/-- How a node becomes a value: with its tags, every key once; or without tags, keys repeated as
they are. -/
inductive Rule where
  | exact
  | bare

/-- Puts a local tag around a value, or refuses it. A tag needs a name. -/
def withTag (rule : Rule) (tag : Option String) (value : Value) : Option Value :=
  match localTag? tag, rule with
  | none, _ => some value
  | some name, .exact => if name.isEmpty then none else some (.tagged name value)
  | some _, .bare => none

mutual

def ofNode? (rule : Rule) : Node → Option Value
  | .scalar tag style text => do
    let tag' := if (localTag? tag).isSome then none else tag
    let value ← ofPlain text (← Plain.ofScalar tag' (style = .plain) text)
    withTag rule tag value
  | .sequence tag items => do withTag rule tag (.seq (← ofItems? rule items))
  | .mapping tag entries => do
    let entries ← ofEntries? rule entries
    match rule with
    | .exact => if hasDuplicate entries then none else withTag rule tag (.map entries)
    | .bare => withTag rule tag (.map entries)
  | .unreadable => none

def ofItems? (rule : Rule) : List Node → Option (List Value)
  | [] => some []
  | item :: rest => do some ((← ofNode? rule item) :: (← ofItems? rule rest))

def ofEntries? (rule : Rule) : List (Node × Node) → Option (List (Value × Value))
  | [] => some []
  | (key, value) :: rest => do
    some ((← ofNode? rule key, ← ofNode? rule value) :: (← ofEntries? rule rest))

end

/-- The value of a text that holds one document. -/
def ofText? (text : String) : Option Value := do ofNode? .exact (← node? text)

mutual

def ofJson : Json → Value
  | .null => .null
  | .bool value => .bool value
  | .int value => .int value
  | .float value => .float value
  | .str value => .str value
  | .arr items => .seq (ofJsonItems items)
  | .obj members => .map (ofJsonMembers members)

def ofJsonItems : List Json → List Value
  | [] => []
  | item :: rest => ofJson item :: ofJsonItems rest

def ofJsonMembers : List (String × Json) → List (Value × Value)
  | [] => []
  | (name, value) :: rest => (.str name, ofJson value) :: ofJsonMembers rest

end

end Value

end ClusterConfig.Yaml
