import ClusterConfig.Json.Basic

/-!
# Merge patches

A patch object is merged member by member: `null` removes a member, an object is merged into the
value that is there, and every other value replaces it. A patch that is no object replaces the
document.
-/

set_option autoImplicit false

namespace ClusterConfig.Json

mutual

/-- The document after a merge patch. -/
def mergePatch (doc : Json) : Json → Json
  | .obj changes => .obj (mergeMembers doc.members changes)
  | patch => patch

def mergeMembers (members : List (String × Json)) : List (String × Json) → List (String × Json)
  | [] => members
  | (name, .null) :: rest => mergeMembers (Members.remove members name) rest
  | (name, change) :: rest =>
    let value := mergePatch ((Members.get? members name).getD .null) change
    mergeMembers (Members.put members name value) rest

end

end ClusterConfig.Json
