import ClusterConfig.Template.Operators
import ClusterConfig.Template.Token

/-!
# Numbers from values

Whole and floating point numbers from text and from other values, and their rounding.
-/

set_option autoImplicit false

namespace ClusterConfig.Template.Builtins

/-- Whether a minus stands first, and the digits after an optional sign. -/
def splitSign : List Char → Bool × List Char
  | '-' :: rest => (true, rest)
  | '+' :: rest => (false, rest)
  | rest => (false, rest)

def wholeText? (text : List Char) : Option Int := do
  let (negative, digits) := splitSign text
  let n ← Token.radixValue? 10 digits
  return if negative then -(n : Int) else n

/-- Decimal text with an optional sign, point and exponent. -/
def floatText? (text : List Char) : Option Binary64 := do
  let (negative, digits) := splitSign text
  let (read, part, rest) := Token.spanNumber .whole digits
  if !rest.isEmpty || read.contains '_' || part = .exponentMark || !read.any Char.isDigit then none
  else
    let x ← Token.floatValue? read
    return if negative then x.negate else x

/-- The whole part of a number, toward zero. -/
def wholePart (x : Binary64) : Int :=
  let n : Nat := x.ratio.1 / x.ratio.2
  if x.isNegative then -n else n

def toInt : Value → Except Failure Value
  | .undefined _ => .ok (.int 0)
  | .absent => .ok (.int 0)
  | .bool b => .ok (.int (if b then 1 else 0))
  | .int n => .ok (.int n)
  | .float x => .ok (.int (wholePart x))
  | .str s =>
    match wholeText? s.toList with
    | some n => .ok (.int n)
    | none =>
      match floatText? s.toList with
      | some x => .ok (.int (wholePart x))
      | none => .error .invalid
  | _ => .error .invalid

def toFloat : Value → Except Failure Value
  | .undefined _ => .ok (.float (Binary64.ofNat 0))
  | .absent => .ok (.float (Binary64.ofNat 0))
  | .str s =>
    match floatText? s.toList with
    | some x => .ok (.float x)
    | none => .error .invalid
  | value =>
    match value.float? with
    | some x => .ok (.float x)
    | none => .error .invalid

def absolute : Value → Except Failure Value
  | .int n => Value.ofInt n.natAbs
  | .float x => .ok (.float (Binary64.ofMagnitude false x.magnitude))
  | _ => .error .invalid

/-- Rounds to a number of decimal places, a half going away from zero. -/
def rounded (value : Value) (places : Int) : Except Failure Value :=
  match value with
  | .int n => .ok (.int n)
  | .float x =>
    let power := Binary64.ofRatio (places < 0) places.natAbs 1
    let shift := Value.onFloats Float.pow (Binary64.ofNat 10) power
    let scaled := Value.onFloats (· * ·) shift x
    let whole :=
      if scaled.isFinite then
        Binary64.ofRatio scaled.isNegative
          ((2 * scaled.ratio.1 + scaled.ratio.2) / (2 * scaled.ratio.2)) 1
      else scaled
    .ok (.float (Value.onFloats (· / ·) whole shift))
  | _ => .error .invalid

end ClusterConfig.Template.Builtins
