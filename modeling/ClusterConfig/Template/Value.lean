import ClusterConfig.Decimal.Shortest
import ClusterConfig.Text.Quoted
import ClusterConfig.Text.Search

/-!
# Values of templates

What the expressions of a template stand for: their text, truth, order and equality. A value that
is not there is `undefined`; it may be passed around, but not printed, tested or taken apart.
-/

set_option autoImplicit false

namespace ClusterConfig.Template

/-- Why a template has no text. -/
inductive Failure where
  /-- A value that is not there was used. -/
  | missingValue
  /-- The text is not a template, or an operation does not fit its operands. -/
  | invalid
deriving DecidableEq

inductive Value where
  /-- A value that is not there; a silent one may be printed, as nothing. -/
  | undefined (silent : Bool)
  | absent
  | bool (value : Bool)
  | int (value : Int)
  | float (value : Binary64)
  | str (value : String)
  | list (items : List Value)
  | mapping (members : List (Value × Value))

namespace Value

def isUndefined : Value → Bool
  | .undefined _ => true
  | _ => false

/-- The value of a character. -/
def ofChar (c : Char) : Value := .str (String.singleton c)

def ofChars (s : List Char) : Value := .str (String.ofList s)

/-- The text of a number, with a point or the name of what is not finite. -/
def floatText (x : Binary64) : String :=
  if x.isNaN then "NaN"
  else if x.isInfinite then (if x.isNegative then "-inf" else "inf")
  else x.text .positional

mutual

/-- How a value shows inside a list. -/
def inner : Value → String
  | .undefined _ => "undefined"
  | .absent => "None"
  | .bool true => "True"
  | .bool false => "False"
  | .int n => toString n
  | .float x => floatText x
  | .str s => Text.quoted s
  | .list items => "[" ++ String.intercalate ", " (innerItems items) ++ "]"
  | .mapping members => "\x7b" ++ String.intercalate ", " (innerMembers members) ++ "\x7d"

def innerItems : List Value → List String
  | [] => []
  | item :: rest => inner item :: innerItems rest

def innerMembers : List (Value × Value) → List String
  | [] => []
  | (key, value) :: rest => (inner key ++ ": " ++ inner value) :: innerMembers rest

end

/-- The text that a value prints as. -/
def shown : Value → String
  | .undefined _ => ""
  | .str s => s
  | value => inner value

/-- Whether a value counts as true where a condition is asked for. -/
def truth : Value → Bool
  | .undefined _ => false
  | .absent => false
  | .bool b => b
  | .int n => n ≠ 0
  | .float x => x.magnitude ≠ 0
  | .str s => !s.isEmpty
  | .list items => !items.isEmpty
  | .mapping members => !members.isEmpty

/-- The truth of a value that has to be there. -/
def condition : Value → Except Failure Bool
  | .undefined false => .error .missingValue
  | value => .ok value.truth

/-- A value that has to be there, printed. -/
def printed : Value → Except Failure String
  | .undefined false => .error .missingValue
  | value => .ok value.shown

/-- Values of different ranks are ordered by rank. -/
def rank : Value → Nat
  | .undefined _ => 0
  | .absent => 1
  | .bool _ => 2
  | .int _ => 3
  | .float _ => 3
  | .str _ => 4
  | .list _ => 5
  | .mapping _ => 6

/-- The value of a truth value or number as an exact fraction, if it is finite. -/
def fraction? : Value → Option (Int × Nat)
  | .bool b => some (if b then 1 else 0, 1)
  | .int n => some (n, 1)
  | .float x =>
    if x.isFinite then some (if x.isNegative then -(x.ratio.1 : Int) else x.ratio.1, x.ratio.2)
    else none
  | _ => none

/-- The order of two numbers; what is not finite is ordered by its sign and magnitude. -/
def compareNumbers (a b : Value) : Ordering :=
  match a.fraction?, b.fraction? with
  | some (m, d), some (n, e) => compare (m * e) (n * d)
  | none, some _ => if extreme a then .gt else .lt
  | some _, none => if extreme b then .lt else .gt
  | none, none =>
    match a, b with
    | .float x, .float y =>
      if x.isNegative then (if y.isNegative then compare y.magnitude x.magnitude else .lt)
      else if y.isNegative then .gt else compare x.magnitude y.magnitude
    | _, _ => .eq
where
  extreme : Value → Bool
    | .float x => !x.isNegative
    | _ => true

mutual

def order : Value → Value → Ordering
  | .str s, .str t => compare s t
  | .list xs, .list ys => orderItems xs ys
  | .mapping xs, .mapping ys => orderMembers xs ys
  | a, b => (compare a.rank b.rank).then (compareNumbers a b)

def orderItems : List Value → List Value → Ordering
  | [], [] => .eq
  | [], _ :: _ => .lt
  | _ :: _, [] => .gt
  | x :: xs, y :: ys => (order x y).then (orderItems xs ys)

def orderMembers : List (Value × Value) → List (Value × Value) → Ordering
  | [], [] => .eq
  | [], _ :: _ => .lt
  | _ :: _, [] => .gt
  | (k, x) :: xs, (l, y) :: ys => ((order k l).then (order x y)).then (orderMembers xs ys)

end

def isNaN : Value → Bool
  | .float x => x.isNaN
  | _ => false

mutual

/-- Equality; truth values equal the numbers 1 and 0. -/
def same : Value → Value → Bool
  | .undefined _, .undefined _ => true
  | .absent, .absent => true
  | .str s, .str t => s == t
  | .list xs, .list ys => sameItems xs ys
  | .mapping xs, .mapping ys => sameMembers xs ys
  | a, b =>
    a.isNumeric && b.isNumeric && !a.isNaN && !b.isNaN && compareNumbers a b == .eq

def sameItems : List Value → List Value → Bool
  | [], [] => true
  | x :: xs, y :: ys => same x y && sameItems xs ys
  | _, _ => false

def sameMembers : List (Value × Value) → List (Value × Value) → Bool
  | [], [] => true
  | (k, x) :: xs, (l, y) :: ys => same k l && same x y && sameMembers xs ys
  | _, _ => false

/-- Truth values and numbers. -/
def isNumeric : Value → Bool
  | .bool _ => true
  | .int _ => true
  | .float _ => true
  | _ => false

end

/-- The member of a mapping with a key. -/
def member? (key : Value) : List (Value × Value) → Option Value
  | [] => none
  | (k, v) :: rest => if same k key then some v else member? key rest

/-- Puts a member into a mapping, whose members are ordered by key. -/
def putMember (key value : Value) : List (Value × Value) → List (Value × Value)
  | [] => [(key, value)]
  | (k, v) :: rest =>
    match order key k with
    | .lt => (key, value) :: (k, v) :: rest
    | .eq => (key, value) :: rest
    | .gt => (k, v) :: putMember key value rest

/-- The mapping of named values. -/
def ofNames (members : List (String × Value)) : Value :=
  .mapping (members.foldl (fun found pair => putMember (.str pair.1) pair.2 found) [])

/-- The whole number that a value stands for. -/
def whole? : Value → Option Int
  | .bool b => some (if b then 1 else 0)
  | .int n => some n
  | value =>
    match value.fraction? with
    | some (n, d) => if n % d = 0 then some (n / d) else none
    | none => none

/-- What a value consists of when it is gone through. -/
def items? : Value → Option (List Value)
  | .undefined _ => some []
  | .absent => some []
  | .str s => some (s.toList.map ofChar)
  | .list items => some items
  | .mapping members => some (members.map Prod.fst)
  | _ => none

/-- The items of a value that has to be there. -/
def items (value : Value) : Except Failure (List Value) :=
  match value with
  | .undefined false => .error .missingValue
  | value =>
    match value.items? with
    | some items => .ok items
    | none => .error .invalid

end Value

end ClusterConfig.Template
