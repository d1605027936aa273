import ClusterConfig.Template.Builtins.Lists
import ClusterConfig.Template.Builtins.Numbers
import ClusterConfig.Template.Builtins.Tests
import ClusterConfig.Text.Lines

/-!
# Filters

A filter makes a value from a value.
-/

set_option autoImplicit false

namespace ClusterConfig.Template.Builtins

def onText (change : List Char → List Char) (value : Value) (arguments : Arguments) :
    Except Failure Value := do
  let _ ← positional 0 arguments
  return .ofChars (change (← value.asText).toList)

/-- Applies a function of the value alone. -/
def onValue (change : Value → Except Failure Value) (value : Value) (arguments : Arguments) :
    Except Failure Value := do
  let _ ← positional 0 arguments
  change value

/-- The items that pass a test, or that count as true where none is named. -/
def chosen (wanted : Bool) (value : Value) (arguments : Arguments) : Except Failure Value := do
  let passes ← (
    match arguments.values with
    | [] => .ok fun (item : Value) => item.condition
    | name :: rest => do
      let name ← name.asText
      return fun item => test name item ⟨rest, []⟩)
  let items ← value.items
  let kept ← items.filterM fun item => do return (← passes item) == wanted
  return .list kept

/-- The value that a filter makes. -/
def filter (name : String) (value : Value) (arguments : Arguments) : Except Failure Value :=
  match name with
  | "upper" => onText Text.upper value arguments
  | "lower" => onText Text.lower value arguments
  | "title" => onText (titled true) value arguments
  | "capitalize" => onText capitalized value arguments
  | "trim" => do
    let values ← positional 1 arguments
    let text := (← value.asText).toList
    match ← optional Value.asText values[0]? with
    | none => return .ofChars (Text.trimChars text)
    | some marks =>
      let inMarks := fun (c : Char) => marks.toList.contains c
      return .ofChars ((text.dropWhile inMarks).reverse.dropWhile inMarks).reverse
  | "replace" => do
    let text := (← value.asText).toList
    match ← positional 2 arguments with
    | [old, new] => do
      let old := (← old.asText).toList
      return .ofChars (Text.replaceAll old (← new.asText).toList text)
    | [old] => do
      let _ ← old.asText
      throw .invalid
    | _ => throw .invalid
  | "length" => onValue lengthOf value arguments
  | "count" => onValue lengthOf value arguments
  | "default" => orElse value arguments
  | "d" => orElse value arguments
  | "first" => onValue (fun value =>
      match value with
      | .undefined _ => .error .invalid
      | .absent => .error .invalid
      | value => (value.items).map fun items => firstOr items.head?) value arguments
  | "last" => onValue (fun value =>
      match value with
      | .str s => .ok (firstOr (s.toList.getLast?.map .ofChar))
      | .list items => .ok (firstOr items.getLast?)
      | _ => .error .invalid) value arguments
  | "join" => do
    let separator ← optional Value.asText (← positional 1 arguments)[0]?
    match value.items? with
    | some items => return .str (joined (separator.getD "") (items.map Value.shown))
    | none => throw .invalid
  | "reverse" => onValue reversed value arguments
  | "list" => onValue (fun value =>
      match value with
      | .undefined false => .error .invalid
      | value => (value.items).map .list) value arguments
  | "string" => onValue (fun value => .ok (.str value.shown)) value arguments
  | "bool" => onValue (fun value => .ok (.bool value.truth)) value arguments
  | "int" => onValue toInt value arguments
  | "float" => onValue toFloat value arguments
  | "abs" => onValue absolute value arguments
  | "round" => do
    let places ← optional Value.asWhole (← positional 1 arguments)[0]?
    rounded value (places.getD 0)
  | "sort" => do
    allowed ["reverse", "case_sensitive"] arguments
    let _ ← positional 0 ⟨arguments.values, []⟩
    let items ← value.items
    let key := sortKey (← namedBool arguments "case_sensitive")
    return .list (sorted key (← namedBool arguments "reverse") items)
  | "unique" => do
    allowed ["case_sensitive"] arguments
    let _ ← positional 0 ⟨arguments.values, []⟩
    let items ← value.items
    return .list (distinct (sortKey (← namedBool arguments "case_sensitive")) [] items)
  | "min" => onValue (fun value => (value.items).map least) value arguments
  | "max" => onValue (fun value => (value.items).map greatest) value arguments
  | "sum" => onValue (fun value => do (← value.items).foldlM (Value.arithmetic .add) (.int 0))
      value arguments
  | "split" => do
    let values ← positional 2 arguments
    let text ← value.asText
    let separator ← optional Value.asText values[0]?
    return split text separator (← optional Value.asWhole values[1]?)
  | "lines" => do
    let _ ← positional 0 arguments
    return .list ((Text.lines (← value.asText).toList).map .ofChars)
  | "escape" => onText (fun text => (String.join (text.map escapedChar)).toList) value arguments
  | "e" => onText (fun text => (String.join (text.map escapedChar)).toList) value arguments
  | "safe" => onText id value arguments
  | "indent" => do
    let text ← value.asText
    match ← positional 3 arguments with
    | [] => throw .invalid
    | width :: flags => do
      let width ← width.asWhole
      let first ← optional Value.asBool flags[0]?
      let blank ← optional Value.asBool flags[1]?
      return .str (indented text width.toNat (first.getD false) (blank.getD false))
  | "items" => onValue (fun value =>
      match value with
      | .mapping members => .ok (.list (members.map fun pair => .list [pair.1, pair.2]))
      | _ => .error .invalid) value arguments
  | "attr" => do
    match ← positional 1 arguments with
    | [key] => return (value.lookup? key).getD (.undefined false)
    | _ => throw .invalid
  | "select" => chosen true value arguments
  | "reject" => chosen false value arguments
  | _ => .error .invalid
where
  /-- Another value for one that is not there, or that does not count as true if that is asked. -/
  orElse (value : Value) (arguments : Arguments) : Except Failure Value := do
    allowed ["boolean"] arguments
    let values ← positional 2 ⟨arguments.values, []⟩
    let lax ← optional Value.asBool values[1]?
    let lax := lax.getD (← namedBool arguments "boolean")
    if value.isUndefined || (lax && !value.truth) then return values[0]?.getD (.str "")
    else return value

end ClusterConfig.Template.Builtins
