import ClusterConfig.Template.Builtins.Arguments
import ClusterConfig.Text.Case

/-!
# Tests

A test answers whether a value has a property.
-/

set_option autoImplicit false

namespace ClusterConfig.Template.Builtins

/-- What a property of a value asks. -/
def test (name : String) (value : Value) (arguments : Arguments) : Except Failure Bool := do
  let values ← positional 1 arguments
  let none? : Except Failure Unit := if values.isEmpty then .ok () else .error .invalid
  let other : Except Failure Value :=
    match values with
    | [other] => .ok other
    | _ => .error .invalid
  match name with
  | "defined" => none?; return !value.isUndefined
  | "undefined" => none?; return value.isUndefined
  | "none" => none?; return (value matches .absent)
  | "boolean" => none?; return (value matches .bool _)
  | "true" => none?; return (value matches .bool true)
  | "false" => none?; return (value matches .bool false)
  | "number" => none?; return (value matches .int _ | .float _)
  | "integer" => none?; return (value matches .int _)
  | "int" => none?; return (value matches .int _)
  | "float" => none?; return (value matches .float _)
  | "string" => none?; return (value matches .str _)
  | "sequence" => none?; return (value matches .list _)
  | "mapping" => none?; return (value matches .mapping _)
  | "iterable" => none?; return value.items?.isSome
  | "safe" => none?; return false
  | "escaped" => none?; return false
  | "odd" => none?; return value.whole?.any fun n => n % 2 ≠ 0
  | "even" => none?; return value.whole?.any fun n => n % 2 = 0
  | "divisibleby" => divides value (← other)
  | "lower" => none?; letters value fun c => Text.lowerChar c = [c] && Text.upperChar c ≠ [c]
  | "upper" => none?; letters value fun c => Text.upperChar c = [c] && Text.lowerChar c ≠ [c]
  | "startingwith" =>
    let start := (← (← other).asText).toList
    return (Text.afterStart? start (← value.asText).toList).isSome
  | "endingwith" =>
    let ending := (← (← other).asText).toList
    return (Text.beforeEnd? ending (← value.asText).toList).isSome
  | "eq" => return Value.same value (← other)
  | "equalto" => return Value.same value (← other)
  | "sameas" => return Value.same value (← other)
  | "ne" => return !Value.same value (← other)
  | "lt" => return Value.comparison .lt value (← other)
  | "lessthan" => return Value.comparison .lt value (← other)
  | "le" => return Value.comparison .le value (← other)
  | "gt" => return Value.comparison .gt value (← other)
  | "greaterthan" => return Value.comparison .gt value (← other)
  | "ge" => return Value.comparison .ge value (← other)
  | "in" => Value.contains value (← other)
  | "filter" => return filterNames.contains (← (← other).asText)
  | "test" => return testNames.contains (← (← other).asText)
  | _ => throw .invalid
where
  divides (value divisor : Value) : Except Failure Bool :=
    match value.whole?, divisor.whole? with
    | some n, some d => .ok (d ≠ 0 && n % d = 0)
    | _, _ => .ok false
  letters (value : Value) (fits : Char → Bool) : Except Failure Bool :=
    match value with
    | .str s => .ok (s.toList.all fits)
    | .undefined _ => .error .missingValue
    | _ => .error .invalid
  testNames : List String :=
    ["defined", "undefined", "none", "boolean", "true", "false", "number", "integer", "int",
      "float", "string", "sequence", "mapping", "iterable", "safe", "escaped", "odd", "even",
      "divisibleby", "lower", "upper", "startingwith", "endingwith", "eq", "equalto", "sameas",
      "ne", "lt", "lessthan", "le", "gt", "greaterthan", "ge", "in", "filter", "test"]
  filterNames : List String :=
    ["upper", "lower", "title", "capitalize", "trim", "replace", "length", "count", "default", "d",
      "first", "last", "join", "reverse", "list", "string", "bool", "int", "float", "abs", "round",
      "sort", "unique", "min", "max", "sum", "split", "lines", "escape", "e", "safe", "indent",
      "items", "attr", "select", "reject"]

end ClusterConfig.Template.Builtins
