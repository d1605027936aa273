import ClusterConfig.Json.Basic

/-!
# Pointers into documents

A pointer is a chain of names. In text each name follows a slash, with `~1` for a slash and `~0`
for a tilde inside it. On an array a name is an index without leading zeros.
-/

set_option autoImplicit false

namespace ClusterConfig.Json

/-- The names on the way from the root, unescaped. -/
structure Pointer where
  names : List String
deriving DecidableEq

namespace Pointer

def escapeName (name : String) : List Char :=
  name.toList.flatMap fun c =>
    if c = '~' then ['~', '0'] else if c = '/' then ['~', '1'] else [c]

/-- The pointer's text. -/
def text (pointer : Pointer) : String :=
  String.ofList (pointer.names.flatMap fun name => '/' :: escapeName name)

/-- Reads names up to the end; `name` holds the current one, backwards. A tilde that is not
followed by `0` or `1` is refused. -/
def readNames (name : List Char) : List Char → Option (List String)
  | [] => some [String.ofList name.reverse]
  | '/' :: rest => (readNames [] rest).map (String.ofList name.reverse :: ·)
  | '~' :: '0' :: rest => readNames ('~' :: name) rest
  | '~' :: '1' :: rest => readNames ('/' :: name) rest
  | c :: rest => if c = '~' then none else readNames (c :: name) rest

/-- The pointer that a text spells. -/
def parse? (text : String) : Option Pointer :=
  match text.toList with
  | [] => some ⟨[]⟩
  | '/' :: rest => (readNames [] rest).map Pointer.mk
  | _ => none

end Pointer

/-- The number that a digit string without leading zeros spells. -/
def index? (name : String) : Option Nat :=
  match name.toList with
  | [] => none
  | ['0'] => some 0
  | '0' :: _ => none
  | digits =>
    if digits.all Char.isDigit then
      some (digits.foldl (fun acc c => acc * 10 + (c.toNat - '0'.toNat)) 0)
    else none

/-- The value that a name leads to. -/
def child? (doc : Json) (name : String) : Option Json :=
  match doc with
  | .obj members => Members.get? members name
  | .arr items => (index? name).bind fun place => items[place]?
  | _ => none

/-- What is found at a chain of names. -/
def at? : Json → List String → Option Json
  | doc, [] => some doc
  | doc, name :: rest => (doc.child? name).bind fun child => at? child rest

theorem at?_cons (doc : Json) (name : String) (rest : List String) :
    doc.at? (name :: rest) = (doc.child? name).bind fun child => child.at? rest := rfl

/-- The document with `child` under a name that leads to a value. -/
def setChild (doc : Json) (name : String) (child : Json) : Json :=
  match doc with
  | .obj members => .obj (Members.put members name child)
  | .arr items => .arr (items.set ((index? name).getD items.length) child)
  | doc => doc

/-- Changes the value at a chain of names, if it is there and the change succeeds. -/
def modifyAt? {α : Type} (change : Json → Option (Json × α)) :
    Json → List String → Option (Json × α)
  | doc, [] => change doc
  | doc, name :: rest => do
    let child ← doc.child? name
    let (child, result) ← modifyAt? change child rest
    some (doc.setChild name child, result)

end ClusterConfig.Json
