import ClusterConfig.Template.Operators

/-!
# Arguments

What a filter, a test or a function asks for: text, a number or a truth value has to be there, a
value need not.
-/

set_option autoImplicit false

namespace ClusterConfig.Template

/-- The arguments of a call, those without a name first. -/
structure Arguments where
  values : List Value
  named : List (String × Value)

/-- The text of an argument that has to be there. -/
def Value.asText : Value → Except Failure String
  | .undefined _ => .error .missingValue
  | value => .ok value.shown

/-- The whole number of an argument that has to be there. -/
def Value.asWhole : Value → Except Failure Int
  | .undefined _ => .error .missingValue
  | value =>
    match value.whole? with
    | some n => .ok n
    | none => .error .invalid

def Value.asBool : Value → Except Failure Bool
  | .undefined _ => .error .missingValue
  | .bool b => .ok b
  | _ => .error .invalid

namespace Builtins

/-- An argument that may be left out. -/
def optional {α : Type} (read : Value → Except Failure α) : Option Value → Except Failure (Option α)
  | none => .ok none
  | some (.undefined _) => .ok none
  | some .absent => .ok none
  | some value => (read value).map some

/-- The named arguments have to be among the given ones. -/
def allowed (names : List String) (arguments : Arguments) : Except Failure Unit :=
  if arguments.named.all fun pair => names.contains pair.1 then .ok () else .error .invalid

def namedBool (arguments : Arguments) (name : String) : Except Failure Bool :=
  match arguments.named.lookup name with
  | none => .ok false
  | some value => (optional Value.asBool (some value)).map fun b => b.getD false

/-- Up to `most` arguments without a name and none with one. -/
def positional (most : Nat) (arguments : Arguments) : Except Failure (List Value) :=
  if arguments.values.length ≤ most ∧ arguments.named.isEmpty then .ok arguments.values
  else .error .invalid

def firstOr (value : Option Value) : Value := value.getD (.undefined false)

end Builtins

end ClusterConfig.Template
