import ClusterConfig.Json.Basic

/-!
# Strategic merge patches

Objects are merged member by member, and `$patch: delete` inside a member's value removes the
member. Lists are appended to, except those with a merge key, whose items are merged with the item
that has the same value of that key. Directives themselves never reach the document.
-/

set_option autoImplicit false

namespace ClusterConfig.Json

def directiveName : String := "$patch"

/-- Whether a patch value asks for the removal of what it is merged with. -/
def isDelete (patch : Json) : Bool :=
  match patch.get? directiveName with
  | some (.str directive) => directive == "delete"
  | _ => false

/-- The lists whose items are identified by a member. -/
def mergeKey? (listName : String) : Option String :=
  Members.get? [("interfaces", "interface"), ("vlans", "vlanId"), ("modules", "name")] listName

mutual

/-- A patch value as it is inserted where nothing is there to merge it with. -/
def withoutDirectives : Json → Json
  | .obj members => .obj (plainMembers members)
  | .arr items => .arr (plainItems items)
  | value => value

def plainMembers : List (String × Json) → List (String × Json)
  | [] => []
  | (name, value) :: rest =>
    if name = directiveName || value.isDelete then plainMembers rest
    else (name, withoutDirectives value) :: plainMembers rest

def plainItems : List Json → List Json
  | [] => []
  | item :: rest => withoutDirectives item :: plainItems rest

end

mutual

/-- The document after a strategic merge patch. -/
def strategicMerge (base : Json) : Json → Json
  | .obj changes =>
    match base with
    | .obj members => .obj (strategicMembers members changes)
    | _ => withoutDirectives (.obj changes)
  | patch => withoutDirectives patch
termination_by structural patch => patch

def strategicMembers (members : List (String × Json)) :
    List (String × Json) → List (String × Json)
  | [] => members
  | (name, change) :: rest =>
    if name = directiveName then strategicMembers members rest
    else if change.isDelete then strategicMembers (Members.remove members name) rest
    else
      strategicMembers
        (Members.put members name (match Members.get? members name with
          | none => withoutDirectives change
          | some old => mergeValue name old change)) rest
termination_by structural changes => changes

/-- The value of a member after a patch value for it. -/
def mergeValue (name : String) (old : Json) : Json → Json
  | .obj changes =>
    match old with
    | .obj members => .obj (strategicMembers members changes)
    | _ => withoutDirectives (.obj changes)
  | .arr items =>
    match old with
    | .arr old => .arr (strategicItems (mergeKey? name) old items)
    | _ => withoutDirectives (.arr items)
  | patch => withoutDirectives patch
termination_by structural patch => patch

/-- A list after the items of a patch list, which are identified by `key`. -/
def strategicItems (key : Option String) (old : List Json) : List Json → List Json
  | [] => old
  | item :: rest =>
    match key.bind fun name => (item.get? name).map fun id => (name, id) with
    | none => strategicItems key (old ++ [withoutDirectives item]) rest
    | some (name, id) =>
      match old.findIdx? fun candidate => candidate.get? name == some id with
      | some place =>
        if item.isDelete then strategicItems key (old.eraseIdx place) rest
        else strategicItems key (old.modify place fun found => strategicMerge found item) rest
      | none =>
        if item.isDelete then strategicItems key old rest
        else strategicItems key (old ++ [withoutDirectives item]) rest
termination_by structural items => items

end

end ClusterConfig.Json
