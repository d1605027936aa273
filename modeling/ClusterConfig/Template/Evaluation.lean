import ClusterConfig.Template.Builtins.Filters
import ClusterConfig.Template.Builtins.Functions
import ClusterConfig.Template.Reading.Statements

/-!
# Running a template

Names are looked up from the innermost scope outwards. A loop and a `with` open a scope; what is
assigned inside is forgotten with it.
-/

set_option autoImplicit false

namespace ClusterConfig.Template

/-- The values of names, the innermost scope first. -/
abbrev Scopes := List (List (String × Value))

namespace Scopes

def get (scopes : Scopes) (name : String) : Value :=
  (scopes.findSome? fun scope => scope.lookup name).getD (.undefined false)

def set (scopes : Scopes) (name : String) (value : Value) : Scopes :=
  match scopes with
  | [] => [[(name, value)]]
  | scope :: rest => ((name, value) :: scope.filter fun pair => pair.1 ≠ name) :: rest

end Scopes

mutual

/-- Assigns a value, or each of its items. -/
def Target.assign (scopes : Scopes) (value : Value) : Target → Except Failure Scopes
  | .name label => .ok (scopes.set label value)
  | .each targets =>
    match value.items? with
    | some items => Target.assignEach scopes items targets
    | none => .error .invalid

def Target.assignEach (scopes : Scopes) : List Value → List Target → Except Failure Scopes
  | [], [] => .ok scopes
  | value :: values, target :: targets => do
    Target.assignEach (← target.assign scopes value) values targets
  | _, _ => .error .invalid

end

/-- The value that a method answers; only the places of loops have one. -/
def method (source : Value) (name : String) (arguments : Arguments) : Except Failure Value :=
  match source, name with
  | .mapping members, "cycle" =>
    match (Value.member? (.str "index0") members).bind Value.whole? with
    | some place =>
      match arguments.values[place.toNat % arguments.values.length]? with
      | some value => .ok value
      | none => .error .invalid
    | none => .error .invalid
  | _, _ => .error .invalid

mutual

def Expr.eval (scopes : Scopes) : Expr → Except Failure Value
  | .constant value => .ok value
  | .variable name => .ok (scopes.get name)
  | .list items => (evalItems scopes items).map .list
  | .mapping members => do
    let members ← evalMembers scopes members
    return .mapping (members.foldl (fun found pair => Value.putMember pair.1 pair.2 found) [])
  | .attribute source name => do (← source.eval scopes).named name
  | .item source key => do
    let value ← source.eval scopes
    value.lookup (← key.eval scopes)
  | .slice source start stop step => do
    let value ← source.eval scopes
    let start ← start.eval scopes
    let stop ← stop.eval scopes
    value.slice start stop (← step.eval scopes)
  | .call name arguments named => do
    let arguments := ⟨← evalItems scopes arguments, ← evalNamed scopes named⟩
    if (scopes.get name).isUndefined then Builtins.function name arguments else throw .invalid
  | .method source name arguments named => do
    let value ← source.eval scopes
    method value name ⟨← evalItems scopes arguments, ← evalNamed scopes named⟩
  | .callValue source arguments named => do
    let _ ← source.eval scopes
    let _ ← evalItems scopes arguments
    let _ ← evalNamed scopes named
    throw .invalid
  | .filter source name arguments named => do
    let value ← source.eval scopes
    Builtins.filter name value ⟨← evalItems scopes arguments, ← evalNamed scopes named⟩
  | .test source name arguments named => do
    let value ← source.eval scopes
    let arguments := ⟨← evalItems scopes arguments, ← evalNamed scopes named⟩
    return .bool (← Builtins.test name value arguments)
  | .not operand => do return .bool !(← (← operand.eval scopes).condition)
  | .negate operand => do (← operand.eval scopes).negated
  | .and left right => do
    let value ← left.eval scopes
    if ← value.condition then right.eval scopes else return value
  | .or left right => do
    let value ← left.eval scopes
    if ← value.condition then return value else right.eval scopes
  | .binary op left right => do
    let value ← left.eval scopes
    Value.binary op value (← right.eval scopes)
  | .choose condition yes no => do
    if ← (← condition.eval scopes).condition then yes.eval scopes else no.eval scopes

def evalItems (scopes : Scopes) : List Expr → Except Failure (List Value)
  | [] => .ok []
  | item :: rest => do
    let value ← item.eval scopes
    return value :: (← evalItems scopes rest)

def evalMembers (scopes : Scopes) : List (Expr × Expr) → Except Failure (List (Value × Value))
  | [] => .ok []
  | (key, value) :: rest => do
    let key ← key.eval scopes
    let value ← value.eval scopes
    return (key, value) :: (← evalMembers scopes rest)

def evalNamed (scopes : Scopes) : List (String × Expr) → Except Failure (List (String × Value))
  | [] => .ok []
  | (name, value) :: rest => do
    let value ← value.eval scopes
    return (name, value) :: (← evalNamed scopes rest)

end

/-- Passes a text through filters, the first one innermost. -/
def applyFilters (scopes : Scopes) (filters : List PendingFilter) (text : String) :
    Except Failure Value :=
  filters.foldlM (fun value filter => (filter.of (.constant value)).eval scopes) (.str text)

/-- What a loop tells its body about the place it is at. -/
def loopState (items : List Value) (depth place : Nat) : Value :=
  let neighbour := fun (value : Option Value) => value.getD (.undefined false)
  .ofNames [
    ("index", .int (place + 1)), ("index0", .int place),
    ("revindex", .int (items.length - place)), ("revindex0", .int (items.length - place - 1)),
    ("first", .bool (place = 0)), ("last", .bool (place + 1 = items.length)),
    ("length", .int items.length), ("depth", .int (depth + 1)), ("depth0", .int depth),
    ("previtem", neighbour (if place = 0 then none else items[place - 1]?)),
    ("nextitem", neighbour items[place + 1]?)]

/-- The number of loops that are open. -/
def loopDepth (scopes : Scopes) : Nat := scopes.countP fun scope => (scope.lookup "loop").isSome

/-- The items that pass a condition on what the target is assigned. -/
def keepItems (scopes : Scopes) (target : Target) (keep : Option Expr) (items : List Value) :
    Except Failure (List Value) :=
  match keep with
  | none => .ok items
  | some keep => items.filterM fun item => do
    let inner ← target.assign ([] :: scopes) item
    (← keep.eval inner).condition

/-- Assigns one value after the other, each seeing those before. -/
def assignAll (scopes : Scopes) : List (Target × Expr) → Except Failure Scopes
  | [] => .ok scopes
  | (target, value) :: rest => do
    let value ← value.eval scopes
    assignAll (← target.assign scopes value) rest

/-- Runs a body for each item; what it assigns stays for the items that follow. -/
def runEach (body : Scopes → Except Failure (String × Scopes)) (target : Target)
    (items : List Value) (depth : Nat) : Scopes → Nat → List Value → Except Failure String
  | _, _, [] => .ok ""
  | scopes, place, item :: rest => do
    let inner ← target.assign (scopes.set "loop" (loopState items depth place)) item
    let (text, inner) ← body inner
    return text ++ (← runEach body target items depth inner (place + 1) rest)

mutual

/-- The text that a statement prints, and the scopes after it. -/
def Statement.run (scopes : Scopes) : Statement → Except Failure (String × Scopes)
  | .text text => .ok (text, scopes)
  | .output value => do return (← (← value.eval scopes).printed, scopes)
  | .branch condition yes no => do
    if ← (← condition.eval scopes).condition then runAll scopes yes else runAll scopes no
  | .loop target source keep body otherwise => do
    let items ← keepItems scopes target keep (← (← source.eval scopes).items)
    if items.isEmpty then runAll scopes otherwise
    else
      let depth := loopDepth scopes
      return (← runEach (fun inner => runAll inner body) target items depth ([] :: scopes) 0 items,
        scopes)
  | .assign target value => do return ("", ← target.assign scopes (← value.eval scopes))
  | .capture name filters body => do
    let (text, scopes) ← runAll scopes body
    return ("", scopes.set name (← applyFilters scopes filters text))
  | .within assignments body => do
    let inner ← assignAll ([] :: scopes) assignments
    let (text, _) ← runAll inner body
    return (text, scopes)
  | .filtered filters body => do
    let (text, scopes) ← runAll scopes body
    return (← (← applyFilters scopes filters text).printed, scopes)
  | .evaluate value => do
    let _ ← value.eval scopes
    return ("", scopes)
  | .block body => do
    let (text, _) ← runAll ([] :: scopes) body
    return (text, scopes)

def runAll (scopes : Scopes) : List Statement → Except Failure (String × Scopes)
  | [] => .ok ("", scopes)
  | statement :: rest => do
    let (text, scopes) ← statement.run scopes
    let (more, scopes) ← runAll scopes rest
    return (text ++ more, scopes)

end

/-- The text of a template with the given values of names. -/
def run (values : List (String × Value)) (text : List Char) : Except Failure String :=
  match Reading.statements? text with
  | none => .error .invalid
  | some statements => (runAll [values] statements).map Prod.fst

end ClusterConfig.Template
