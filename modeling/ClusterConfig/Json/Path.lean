import ClusterConfig.Json.Basic
import ClusterConfig.Members

/-!
# Setting and removing members

A path of names leads through objects. Setting makes objects of what stands in the way, removing
leaves a document alone in which the path leads nowhere.
-/

set_option autoImplicit false

namespace ClusterConfig.Json

def setAt : Json → List String → Json → Json
  | _, [], value => value
  | doc, name :: rest, value =>
    .obj (Members.put doc.members name (setAt ((doc.get? name).getD .null) rest value))

def removeAt : Json → List String → Json
  | doc, [] => doc
  | .obj members, [name] => .obj (Members.remove members name)
  | .obj members, name :: rest =>
    match Members.get? members name with
    | some child => .obj (Members.put members name (removeAt child rest))
    | none => .obj members
  | doc, _ => doc

end ClusterConfig.Json
