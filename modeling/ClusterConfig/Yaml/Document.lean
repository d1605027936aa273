import ClusterConfig.Yaml.Node
import ClusterConfig.Yaml.Plain

/-!
# Documents from YAML

A node without local tags is a document. The keys of a mapping are the texts of its scalars, a later
entry of a name replaces an earlier one in its place, and a number that is not finite is null.
-/

set_option autoImplicit false

namespace ClusterConfig.Yaml

def isLocalTag (tag : Option String) : Bool := tag.any fun tag => tag.startsWith "!"

def jsonOfPlain (text : String) : Plain → Option Json
  | .null => some .null
  | .bool value => some (.bool value)
  | .int value => some (.int value)
  | .wide => none
  | .float value => some (if value.isFinite then .float value else .null)
  | .text => some (.str text)

mutual

def json? : Node → Option Json
  | .scalar tag style text =>
    if isLocalTag tag then none
    else (Plain.ofScalar tag (style = .plain) text).bind (jsonOfPlain text)
  | .sequence tag items => if isLocalTag tag then none else (jsonItems? items).map .arr
  | .mapping tag entries =>
    if isLocalTag tag then none else (jsonMembers? [] entries).map .obj
  | .unreadable => none

def jsonItems? : List Node → Option (List Json)
  | [] => some []
  | item :: rest => do some ((← json? item) :: (← jsonItems? rest))

def jsonMembers? (members : Members Json) : List (Node × Node) → Option (Members Json)
  | [] => some members
  | (.scalar _ _ name, value) :: rest => do jsonMembers? (members.put name (← json? value)) rest
  | _ :: _ => none

end

/-- The only document of a text. -/
def parseJson? (text : String) : Option Json := (node? text).bind json?

/-- Why a stream of documents cannot be read. -/
inductive StreamError where
  /-- The document at an index is not one. -/
  | document (index : Nat)

def StreamError.message : StreamError → String
  | .document index => "failed to deserialize YAML document #" ++ toString index

/-- The documents of a stream but for those that are null, counted from `index`. -/
def collect (index : Nat) : List (Option Node) → Except StreamError (List Json)
  | [] => .ok []
  | node :: rest =>
    match node.bind json? with
    | none => .error (.document index)
    | some value => do
      let more ← collect (index + 1) rest
      .ok (if value.isNull then more else value :: more)

def parseDocuments (text : String) : Except StreamError (List Json) := collect 0 (nodes text)

end ClusterConfig.Yaml
