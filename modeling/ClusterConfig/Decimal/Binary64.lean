/-!
# Floating point numbers of 64 bits

A number is its bit pattern. A finite pattern stands for `mantissa * 2 ^ exponent`, and
`ofRatio` rounds an exact quotient to the nearest pattern, ties going to the even mantissa.
Everything is computed on natural numbers.
-/

set_option autoImplicit false

namespace ClusterConfig

/-- A binary floating point number, held as its 64 bits. -/
structure Binary64 where
  bits : UInt64
deriving DecidableEq

namespace Binary64

def isNegative (x : Binary64) : Bool := Nat.pow 2 63 ≤ x.bits.toNat

/-- The bits without the sign. -/
def magnitude (x : Binary64) : Nat := x.bits.toNat % Nat.pow 2 63

def biasedExponent (x : Binary64) : Nat := x.magnitude / Nat.pow 2 52

def fraction (x : Binary64) : Nat := x.magnitude % Nat.pow 2 52

/-- The magnitude of infinity; larger magnitudes are not numbers. -/
def infiniteMagnitude : Nat := 2047 * Nat.pow 2 52

def isFinite (x : Binary64) : Bool := x.magnitude < infiniteMagnitude

def isNaN (x : Binary64) : Bool := infiniteMagnitude < x.magnitude

def isInfinite (x : Binary64) : Bool := x.magnitude = infiniteMagnitude

def ofMagnitude (negative : Bool) (magnitude : Nat) : Binary64 :=
  ⟨UInt64.ofNat (if negative then Nat.pow 2 63 + magnitude else magnitude)⟩

def infinity (negative : Bool) : Binary64 := ofMagnitude negative infiniteMagnitude

def nan : Binary64 := ofMagnitude false (infiniteMagnitude + Nat.pow 2 51)

def mantissa (x : Binary64) : Nat :=
  if x.biasedExponent = 0 then x.fraction else Nat.pow 2 52 + x.fraction

/-- The power of two above the least one, `-1074`, that the mantissa is multiplied by. -/
def scale (x : Binary64) : Nat := x.biasedExponent - 1

/-- The absolute value of a finite number as an exact quotient. -/
def ratio (x : Binary64) : Nat × Nat := (x.mantissa * Nat.pow 2 x.scale, Nat.pow 2 1074)

/-- The quotient to the nearest whole number, a half going to the even neighbour. -/
def roundHalfEven (num den : Nat) : Nat :=
  let floor := num / den
  let twice := 2 * (num % den)
  if twice < den then floor
  else if den < twice then floor + 1
  else floor + floor % 2

/-- The number nearest to `num / den`, infinite beyond the largest finite one. -/
def ofRatio (negative : Bool) (num den : Nat) : Binary64 :=
  if num = 0 then ofMagnitude negative 0
  else
    let scaled := num * Nat.pow 2 1074
    let least := Nat.log2 (scaled / den + 1) - 53
    let scale := if scaled / (den * Nat.pow 2 least) < Nat.pow 2 53 then least else least + 1
    let magnitude := scale * Nat.pow 2 52 + roundHalfEven scaled (den * Nat.pow 2 scale)
    ofMagnitude negative (min magnitude infiniteMagnitude)

/-- The number nearest to `digits * 10 ^ power`. Powers far outside the range of the format are
answered without computing them. -/
def ofDecimal (negative : Bool) (digits : Nat) (power : Int) : Binary64 :=
  if digits = 0 then ofMagnitude negative 0
  else if 400 < power then infinity negative
  else if power + (Nat.log2 digits : Int) < -1500 then ofMagnitude negative 0
  else if 0 ≤ power then ofRatio negative (digits * Nat.pow 10 power.toNat) 1
  else ofRatio negative digits (Nat.pow 10 (-power).toNat)

def ofNat (n : Nat) : Binary64 := ofRatio false n 1

def negate (x : Binary64) : Binary64 := ofMagnitude (!x.isNegative) x.magnitude

/-- The product or quotient of the absolute values, rounded, with the given sign. -/
def mulAbs (negative : Bool) (x y : Binary64) : Binary64 :=
  ofRatio negative (x.ratio.1 * y.ratio.1) (x.ratio.2 * y.ratio.2)

def divAbs (negative : Bool) (x y : Binary64) : Binary64 :=
  ofRatio negative (x.ratio.1 * y.ratio.2) (x.ratio.2 * y.ratio.1)

/-- Equality of the numbers: the two zeros are equal, and no pattern beyond infinity equals any. -/
def same (x y : Binary64) : Bool :=
  !x.isNaN && !y.isNaN && (x.bits == y.bits || (x.magnitude == 0 && y.magnitude == 0))

end Binary64

end ClusterConfig
