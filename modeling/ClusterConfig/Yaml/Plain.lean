import ClusterConfig.Json.Basic
import ClusterConfig.Json.Reader

/-!
# What a plain scalar means

A plain scalar is null, a boolean, a number or, failing these, a string. Digits after a leading zero
are no number.
-/

set_option autoImplicit false

namespace ClusterConfig.Yaml

inductive Plain where
  | null
  | bool (value : Bool)
  | int (value : Int)
  /-- An integer beyond 64 bits that still fits 128 bits; no document holds one. -/
  | wide
  | float (value : Binary64)
  | text

namespace Plain

def isNullText (s : String) : Bool := s = "null" || s = "Null" || s = "NULL" || s = "~"

def bool? (s : String) : Option Bool :=
  if s = "true" || s = "True" || s = "TRUE" then some true
  else if s = "false" || s = "False" || s = "FALSE" then some false
  else none

def withoutSign : List Char → List Char
  | '+' :: rest => rest
  | '-' :: rest => rest
  | s => s

/-- Digits after a leading zero, with or without a sign. -/
def isZeroPadded (s : List Char) : Bool :=
  match withoutSign s with
  | '0' :: rest => !rest.isEmpty && rest.all Char.isDigit
  | _ => false

/-- A number in a base up to sixteen. -/
def inBase? (base : Nat) (digits : List Char) : Option Nat := do
  if digits.isEmpty then none
  digits.foldlM (fun acc c => do
    let v ← Json.hexValue? c
    if v < base then some (acc * base + v) else none) 0

/-- The size of an integer written with or without a base. -/
def magnitude? (s : List Char) : Option Nat :=
  match s with
  | '0' :: 'x' :: rest => inBase? 16 rest
  | '0' :: 'o' :: rest => inBase? 8 rest
  | '0' :: 'b' :: rest => inBase? 2 rest
  | _ => if isZeroPadded s then none else inBase? 10 s

/-- An integer with or without a sign. -/
def integer? : List Char → Option Int
  | '+' :: rest => (magnitude? rest).map fun n => (n : Int)
  | '-' :: rest => (magnitude? rest).map fun n => -(n : Int)
  | s => (magnitude? s).map fun n => (n : Int)

/-- An integer that 64 bits hold. -/
def fitsWord (n : Int) : Bool := -(Nat.pow 2 63 : Int) ≤ n && n < (Nat.pow 2 64 : Int)

/-- An integer that 128 bits hold. -/
def fitsTwoWords (n : Int) : Bool := -(Nat.pow 2 127 : Int) ≤ n && n < (Nat.pow 2 128 : Int)

def exponent? (s : List Char) : Option Int :=
  match s with
  | [] => some 0
  | c :: rest =>
    if c = 'e' || c = 'E' then
      let digits := withoutSign rest
      if digits.isEmpty || !digits.all Char.isDigit then none
      else
        let value : Int := Json.digitsValue digits
        some (if rest.head? = some '-' then -value else value)
    else none

/-- A decimal number without sign: digits, a point among them or not, and an exponent. -/
def decimal? (negative : Bool) (s : List Char) : Option Binary64 := do
  let whole := s.takeWhile Char.isDigit
  let rest := s.dropWhile Char.isDigit
  let (fraction, rest) := match rest with
    | '.' :: after => (after.takeWhile Char.isDigit, after.dropWhile Char.isDigit)
    | _ => ([], rest)
  if whole.isEmpty && fraction.isEmpty then none
  let power ← exponent? rest
  let digits := Json.digitsValue (whole ++ fraction)
  let value := Binary64.ofDecimal negative digits (power - fraction.length)
  if value.isFinite then some value else none

def isInfinityText (s : List Char) : Bool :=
  s = ['.', 'i', 'n', 'f'] || s = ['.', 'I', 'n', 'f'] || s = ['.', 'I', 'N', 'F']

def isNaNText (s : List Char) : Bool :=
  s = ['.', 'n', 'a', 'n'] || s = ['.', 'N', 'a', 'N'] || s = ['.', 'N', 'A', 'N']

def float? (s : List Char) : Option Binary64 :=
  match s with
  | '+' :: rest => signed false rest
  | '-' :: rest => signed true rest
  | _ => if isNaNText s then some .nan else signed false s
where
  signed (negative : Bool) (s : List Char) : Option Binary64 :=
    if isInfinityText s then some (Binary64.infinity negative) else decimal? negative s

/-- What an integer means as a part of a document. -/
def ofInteger (n : Int) : Option Plain :=
  if fitsWord n then some (.int n) else if fitsTwoWords n then some .wide else none

/-- What the text of a plain scalar means. -/
def ofText (s : String) : Plain :=
  if s.isEmpty || isNullText s then .null
  else
    match bool? s with
    | some value => .bool value
    | none =>
      let chars := s.toList
      match (integer? chars).bind ofInteger with
      | some value => value
      | none =>
        if isZeroPadded chars then .text
        else
          match float? chars with
          | some value => .float value
          | none => .text

/-- What a scalar means: the core tags demand their kind, any other tag makes a string, and so does a
style other than plain. -/
def ofScalar (tag : Option String) (isPlain : Bool) (s : String) : Option Plain :=
  match tag with
  | none => some (if isPlain then ofText s else .text)
  | some "tag:yaml.org,2002:null" => if isNullText s then some .null else none
  | some "tag:yaml.org,2002:bool" => (bool? s).map .bool
  | some "tag:yaml.org,2002:int" => (integer? s.toList).bind ofInteger
  | some "tag:yaml.org,2002:float" => (float? s.toList).map .float
  | some _ => some .text

end Plain

end ClusterConfig.Yaml
