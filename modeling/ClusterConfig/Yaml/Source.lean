import ClusterConfig.Yaml.Document
import ClusterConfig.Yaml.Value

/-!
# Reading typed data

What a structure is read from. In a text any scalar is a string, and kinds are asked of plain
scalars. A value has fixed kinds, and its tags do not count. A buffered value has neither tags nor
empty collections spelled as null. A structure is read from a mapping, whose unknown entries do not
count, or from a buffered sequence of its fields in order.
-/

set_option autoImplicit false

namespace ClusterConfig.Yaml

inductive Source where
  | text (node : Node)
  | value (value : Value)
  | buffered (value : Value)

mutual

/-- The document of a value without tags on its values; keys have to be strings. -/
def Value.json? : Value → Option Json
  | .null => some .null
  | .bool value => some (.bool value)
  | .int value => some (.int value)
  | .float value => some (if value.isFinite then .float value else .null)
  | .str value => some (.str value)
  | .seq items => (Value.jsonItems? items).map .arr
  | .map entries => (Value.jsonMembers? [] entries).map .obj
  | .tagged _ _ => none

def Value.jsonItems? : List Value → Option (List Json)
  | [] => some []
  | item :: rest => do some ((← Value.json? item) :: (← Value.jsonItems? rest))

def Value.jsonMembers? (members : Members Json) : List (Value × Value) → Option (Members Json)
  | [] => some members
  | (key, value) :: rest => do
    let name ← key.untagged.str?
    Value.jsonMembers? (members.put name (← Value.json? value)) rest

end

mutual

def Value.hasTag : Value → Bool
  | .tagged _ _ => true
  | .seq items => Value.anyHasTag items
  | .map entries => Value.anyEntryHasTag entries
  | _ => false

def Value.anyHasTag : List Value → Bool
  | [] => false
  | item :: rest => Value.hasTag item || Value.anyHasTag rest

def Value.anyEntryHasTag : List (Value × Value) → Bool
  | [] => false
  | (key, value) :: rest =>
    Value.hasTag key || Value.hasTag value || Value.anyEntryHasTag rest

end

namespace Source

def isEmptyPlain : Node → Bool
  | .scalar _ .plain "" => true
  | _ => false

/-- A scalar whose text is asked for its kind: a plain one, or a literal block with the tag. -/
def kindText? (tag : String) : Node → Option String
  | .scalar _ .plain s => some s
  | .scalar found .literal s => if found = some tag then some s else none
  | _ => none

def string? : Source → Option String
  | .text (.scalar _ _ s) => some s
  | .text _ => none
  | .value v => v.untagged.str?
  | .buffered v => v.str?

def boolOf? : Value → Option Bool
  | .bool b => some b
  | _ => none

def bool? : Source → Option Bool
  | .text node => (kindText? "tag:yaml.org,2002:bool" node).bind Plain.bool?
  | .value v => boolOf? v.untagged
  | .buffered v => boolOf? v

def unsignedText? : List Char → Option Nat
  | '+' :: rest => Plain.magnitude? rest
  | s => Plain.magnitude? s

def naturalOf? : Value → Option Nat
  | .int n => if 0 ≤ n then some n.toNat else none
  | _ => none

/-- A natural number up to a limit. -/
def natural? (limit : Nat) (source : Source) : Option Nat := do
  let n ← match source with
    | .text node => (kindText? "tag:yaml.org,2002:int" node).bind fun s => unsignedText? s.toList
    | .value v => naturalOf? v.untagged
    | .buffered v => naturalOf? v
  if n ≤ limit then some n else none

/-- The inner `none` is a null. -/
def nullable : Source → Option (Option Source)
  | .text (.scalar tag style s) =>
    if style ≠ .plain then some (some (.text (.scalar tag style s)))
    else
      match tag with
      | none =>
        if s.isEmpty || Plain.isNullText s then some none
        else some (some (.text (.scalar tag style s)))
      | some "tag:yaml.org,2002:null" => if Plain.isNullText s then some none else none
      | some _ => some (some (.text (.scalar tag style s)))
  | .text .unreadable => none
  | .text node => some (some (.text node))
  | .value .null => some none
  | .value v => some (some (.value v))
  | .buffered .null => some none
  | .buffered v => some (some (.buffered v))

def items? : Source → Option (List Source)
  | .text (.sequence _ items) => some (items.map .text)
  | .text node => if isEmptyPlain node then some [] else none
  | .value v =>
    match v.untagged with
    | .seq items => some (items.map .value)
    | .null => some []
    | _ => none
  | .buffered (.seq items) => some (items.map .buffered)
  | .buffered _ => none

def list? {α : Type} (read : Source → Option α) (source : Source) : Option (List α) := do
  (← source.items?).mapM read

def entries? : Source → Option (List (Source × Source))
  | .text (.mapping _ entries) => some (entries.map fun e => (.text e.1, .text e.2))
  | .text node => if isEmptyPlain node then some [] else none
  | .value v =>
    match v.untagged with
    | .map entries => some (entries.map fun e => (.value e.1, .value e.2))
    | .null => some []
    | _ => none
  | .buffered (.map entries) => some (entries.map fun e => (.buffered e.1, .buffered e.2))
  | .buffered _ => none

/-- Named entries; a later one replaces an earlier one of its name. -/
def members? {α : Type} (read : Source → Option α) (source : Source) : Option (Members α) := do
  (← source.entries?).foldlM (fun (members : Members α) entry => do
    some (members.put (← entry.1.string?) (← read entry.2))) []

def json? : Source → Option Json
  | .text node => Yaml.json? node
  | .value v => v.json?
  | .buffered v => v.json?

/-- The name of one of several choices: a string, or a tag on nothing. -/
def choice? : Source → Option String
  | .text (.scalar none _ s) => some s
  | .text _ => none
  | .value (.str name) => some name
  | .value (.tagged tag .null) => some (Value.bareTag tag)
  | .value _ => none
  | .buffered v => v.str?

/-- The name of the field an entry is for; a buffered key may be the field's number. -/
def fieldName? (names : List String) : Source → Option String
  | .buffered (.int n) => if 0 ≤ n then some (names.getD n.toNat "") else none
  | key => key.string?

/-- Keeps the fields with the given names; none of them may occur twice. -/
def collect (names : List String) :
    Members Source → List (Source × Source) → Option (Members Source)
  | fields, [] => some fields
  | fields, entry :: rest => do
    let name ← fieldName? names entry.1
    if !names.contains name then collect names fields rest
    else if fields.contains name then none
    else collect names (fields.put name entry.2) rest

/-- The sequence that a buffered structure may be read from. -/
def positional? : Source → Option (List Source)
  | .buffered (.seq items) => some (items.map .buffered)
  | _ => none

/-- The fields of a structure. -/
def fields? (names : List String) (source : Source) : Option (Members Source) :=
  match source.positional? with
  | some items => if items.length ≤ names.length then some (names.zip items) else none
  | none => do collect names [] (← source.entries?)

/-- A value without tags, to be read once it is known what it is for. -/
def buffer? : Source → Option Source
  | .text node => (Value.ofNode? .bare node).map .buffered
  | .value v => if v.hasTag then none else some (.buffered v)
  | .buffered v => some (.buffered v)

/-- The fields of a structure that shares its mapping with another one: its own, and the other
entries buffered under their names. -/
def sharedFields? (names : List String) (source : Source) :
    Option (Members Source × List (Source × Source)) := do
  let entries ← source.entries?
  let named ← entries.mapM fun entry => do some ((← entry.1.string?), entry.2)
  let own ← named.foldlM (fun (fields : Members Source) entry =>
    if !names.contains entry.1 then some fields
    else if fields.contains entry.1 then none
    else some (fields.put entry.1 entry.2)) []
  let others ← (named.filter fun entry => !names.contains entry.1).mapM fun entry => do
    some (Source.buffered (.str entry.1), ← entry.2.buffer?)
  some (own, others)

end Source

/-! ## Fields -/

namespace Fields

variable {α : Type}

/-- A field that may be missing or null. -/
def option (fields : Members Source) (name : String) (read : Source → Option α) :
    Option (Option α) :=
  match fields.get? name with
  | none => some none
  | some source => do
    match ← source.nullable with
    | none => some none
    | some source => (read source).map some

/-- A field that may be missing. -/
def orElse (fields : Members Source) (name : String) (default : α) (read : Source → Option α) :
    Option α :=
  match fields.get? name with
  | none => some default
  | some source => read source

/-- A field that has to be there. -/
def required (fields : Members Source) (name : String) (read : Source → Option α) : Option α :=
  (fields.get? name).bind read

def text (fields : Members Source) (name : String) (default : String := "") : Option String :=
  orElse fields name default Source.string?

def flag (fields : Members Source) (name : String) : Option Bool :=
  orElse fields name false Source.bool?

def optionText (fields : Members Source) (name : String) : Option (Option String) :=
  option fields name Source.string?

def list (fields : Members Source) (name : String) (read : Source → Option α) : Option (List α) :=
  orElse fields name [] (Source.list? read)

def texts (fields : Members Source) (name : String) : Option (List String) :=
  list fields name Source.string?

end Fields

end ClusterConfig.Yaml
