/-!
# Numbers in text
-/

set_option autoImplicit false

namespace ClusterConfig.Text

def digitValue (c : Char) : Nat := c.toNat - '0'.toNat

/-- The number that decimal digits spell. -/
def decimalValue (digits : List Char) : Nat := digits.foldl (fun acc c => acc * 10 + digitValue c) 0

/-- The number that one or more decimal digits spell, if it is at most `limit`. -/
def decimal? (limit : Nat) (digits : List Char) : Option Nat :=
  if digits.isEmpty || !digits.all Char.isDigit then none
  else if decimalValue digits ≤ limit then some (decimalValue digits) else none

/-- Like `decimal?`, with an optional plus sign. -/
def unsigned? (limit : Nat) : List Char → Option Nat
  | '+' :: digits => decimal? limit digits
  | digits => decimal? limit digits

def wordLimit : Nat := Nat.pow 2 64 - 1

end ClusterConfig.Text
