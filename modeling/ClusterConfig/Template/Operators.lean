import ClusterConfig.Template.Expression

/-!
# Operators of expressions

Arithmetic on whole numbers stays within 128 bits with a sign; a division of whole numbers has a
fractional value, and `//` and `%` leave a remainder that is not negative.
-/

set_option autoImplicit false

namespace ClusterConfig.Template.Value

/-- A whole number, if it fits. -/
def ofInt (n : Int) : Except Failure Value :=
  if -(Nat.pow 2 127 : Int) ≤ n ∧ n < (Nat.pow 2 127 : Int) then .ok (.int n) else .error .invalid

/-- The value of a truth value or number as a floating point number. -/
def float? : Value → Option Binary64
  | .bool b => some (Binary64.ofNat (if b then 1 else 0))
  | .int n => some (Binary64.ofRatio (n < 0) n.natAbs 1)
  | .float x => some x
  | _ => none

def isFloat : Value → Bool
  | .float _ => true
  | _ => false

/-- The whole part of a number, toward zero. -/
def truncated (x : Binary64) : Binary64 :=
  if x.isFinite then Binary64.ofRatio x.isNegative (x.ratio.1 / x.ratio.2) 1 else x

def onFloats (op : Float → Float → Float) (x y : Binary64) : Binary64 :=
  ⟨(op (Float.ofBits x.bits) (Float.ofBits y.bits)).toBits⟩

/-- The remainder of a division toward zero, which is exact. -/
def floatRemainder (x y : Binary64) : Binary64 :=
  if !x.isFinite || y.isNaN || y.magnitude = 0 then Binary64.nan
  else if y.isInfinite then x
  else Binary64.ofRatio x.isNegative (x.ratio.1 % y.ratio.1) x.ratio.2

/-- The quotient that leaves a remainder which is not negative. -/
def floatFloorDiv (x y : Binary64) : Binary64 :=
  let quotient := truncated (onFloats (· / ·) x y)
  let remainder := floatRemainder x y
  if remainder.isNegative && remainder.magnitude ≠ 0 then
    onFloats (if y.isNegative then (· + ·) else (· - ·)) quotient (Binary64.ofNat 1)
  else quotient

def floatArithmetic : Arithmetic → Binary64 → Binary64 → Binary64
  | .add => onFloats (· + ·)
  | .sub => onFloats (· - ·)
  | .mul => onFloats (· * ·)
  | .div => onFloats (· / ·)
  | .floorDiv => floatFloorDiv
  | .rem => floatRemainder
  | .pow => onFloats Float.pow

def intArithmetic : Arithmetic → Int → Int → Except Failure Value
  | .add, m, n => ofInt (m + n)
  | .sub, m, n => ofInt (m - n)
  | .mul, m, n => ofInt (m * n)
  | .floorDiv, m, n => if n = 0 then .error .invalid else ofInt (m / n)
  | .rem, m, n => if n = 0 then .error .invalid else ofInt (m % n)
  | .pow, m, n =>
    if n < 0 then .error .invalid
    else if m.natAbs ≤ 1 then ofInt (if m = -1 && n % 2 = 0 then 1 else if n = 0 then 1 else m)
    else if 127 < n then .error .invalid
    else ofInt (Int.pow m n.toNat)
  | .div, m, n => .ok (.float (onFloats (· / ·) (toFloat m) (toFloat n)))
where
  toFloat (n : Int) : Binary64 := Binary64.ofRatio (n < 0) n.natAbs 1

def numberArithmetic (op : Arithmetic) (a b : Value) : Except Failure Value :=
  match a.float?, b.float? with
  | some x, some y =>
    if a.isFloat || b.isFloat then .ok (.float (floatArithmetic op x y))
    else
      match a.whole?, b.whole? with
      | some m, some n => intArithmetic op m n
      | _, _ => .error .invalid
  | _, _ => .error .invalid

def repeated (text : String) (count : Value) : Except Failure Value :=
  match count.whole? with
  | some n =>
    if n < 0 then .error .invalid else .ok (.str (String.join (List.replicate n.toNat text)))
  | none => .error .invalid

def arithmetic : Arithmetic → Value → Value → Except Failure Value
  | .add, .str s, .str t => .ok (.str (s ++ t))
  | .add, .list xs, .list ys => .ok (.list (xs ++ ys))
  | .mul, .str s, n => repeated s n
  | .mul, n, .str s => repeated s n
  | op, a, b => numberArithmetic op a b

def comparison : Comparison → Value → Value → Bool
  | .eq, a, b => same a b
  | .ne, a, b => !same a b
  | .lt, a, b => order a b == .lt
  | .le, a, b => order a b != .gt
  | .gt, a, b => order a b == .gt
  | .ge, a, b => order a b != .lt

/-- Whether a value is part of a text, an item of a list or a key of a mapping. -/
def contains (value container : Value) : Except Failure Bool :=
  match container with
  | .undefined false => .error .missingValue
  | .undefined true => .ok false
  | .str s => .ok (Text.occursIn value.shown.toList s.toList)
  | .list items => .ok (items.any fun item => same item value)
  | .mapping members => .ok (member? value members).isSome
  | _ => .error .invalid

def negated : Value → Except Failure Value
  | .int n => ofInt (-n)
  | .float x => .ok (.float x.negate)
  | _ => .error .invalid

/-- The place that an index means: negative ones count from the end. -/
def place? (length : Nat) (index : Value) : Option Nat :=
  match index.whole? with
  | none => none
  | some n => if 0 ≤ n then some n.toNat else if -n ≤ length then some (length + n).toNat else none

/-- What stands under a key, if there is such a thing. -/
def lookup? (source key : Value) : Option Value :=
  match source with
  | .mapping members => member? key members
  | .list items => (place? items.length key).bind fun n => items[n]?
  | .str s => (place? s.length key).bind fun n => s.toList[n]?.map ofChar
  | _ => none

/-- What stands under a key of a value that has to be there. -/
def lookup (source key : Value) : Except Failure Value :=
  match source.lookup? key with
  | some found => .ok found
  | none => if source.isUndefined then .error .missingValue else .ok (.undefined false)

/-- What stands under a name of a value that has to be there; only mappings have names. -/
def named (source : Value) (name : String) : Except Failure Value :=
  match source with
  | .mapping members => .ok ((member? (.str name) members).getD (.undefined false))
  | .undefined _ => .error .missingValue
  | _ => .ok (.undefined false)

/-- A bound of a slice, which may be left out. -/
def bound? : Value → Except Failure (Option Int)
  | .absent => .ok none
  | value =>
    match value.whole? with
    | some n => .ok (some n)
    | none => .error .invalid

/-- Brings a bound into the range of the places; negative ones count from the end. -/
def clampBound (low high length n : Int) : Int := max low (min high (if n < 0 then n + length else n))

/-- The items from a place by steps, as long as they lie before the end. -/
def everyNth {α : Type} (items : List α) (step : Nat) : Nat → Nat → List α
  | 0, _ => []
  | fuel + 1, place =>
    match items[place]? with
    | some item => item :: everyNth items step fuel (place + step)
    | none => []

def sliceItems {α : Type} (items : List α) (start stop : Option Int) (step : Int) : List α :=
  let length : Int := items.length
  if 0 < step then
    let first := (start.map (clampBound 0 length length)).getD 0
    let last := (stop.map (clampBound 0 length length)).getD length
    everyNth (items.take last.toNat) step.toNat items.length first.toNat
  else
    let first := (start.map (clampBound (-1) (length - 1) length)).getD (length - 1)
    let last := (stop.map (clampBound (-1) (length - 1) length)).getD (-1)
    let rest := (items.drop (last + 1).toNat).reverse
    everyNth rest (-step).toNat items.length (length - 1 - first).toNat

def slice (source start stop step : Value) : Except Failure Value := do
  if let .undefined false := source then throw .missingValue
  let start ← bound? start
  let stop ← bound? stop
  let step := (← bound? step).getD 1
  if step = 0 then throw .invalid
  match source with
  | .str s => return ofChars (sliceItems s.toList start stop step)
  | .list items => return .list (sliceItems items start stop step)
  | .absent => return .list []
  | .undefined _ => return .list []
  | _ => throw .invalid

def binary : BinaryOp → Value → Value → Except Failure Value
  | .arithmetic op, a, b => arithmetic op a b
  | .comparison op, a, b => .ok (.bool (comparison op a b))
  | .concat, a, b => .ok (.str (a.shown ++ b.shown))
  | .contains, a, b => (contains a b).map .bool

end ClusterConfig.Template.Value
