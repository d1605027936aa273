/-!
# Base64

Groups of four digits of six bits stand for three bytes. The last group is filled up with equals
signs, and the bits that no byte takes are zero.
-/

set_option autoImplicit false

namespace ClusterConfig.Base64

def digit? (c : Char) : Option Nat :=
  if 'A' ≤ c && c ≤ 'Z' then some (c.toNat - 'A'.toNat)
  else if 'a' ≤ c && c ≤ 'z' then some (c.toNat - 'a'.toNat + 26)
  else if '0' ≤ c && c ≤ '9' then some (c.toNat - '0'.toNat + 52)
  else if c = '+' then some 62
  else if c = '/' then some 63
  else none

/-- The bytes of a text, as numbers. -/
def decode? : List Char → Option (List Nat)
  | [] => some []
  | [a, b, '=', '='] => do
    let n := (← digit? a) * 64 + (← digit? b)
    if n % 16 = 0 then some [n / 16] else none
  | [a, b, c, '='] => do
    let n := ((← digit? a) * 64 + (← digit? b)) * 64 + (← digit? c)
    if n % 4 = 0 then some [n / 1024, n / 4 % 256] else none
  | a :: b :: c :: d :: rest => do
    let n := (((← digit? a) * 64 + (← digit? b)) * 64 + (← digit? c)) * 64 + (← digit? d)
    let bytes ← decode? rest
    some (n / 65536 :: n / 256 % 256 :: n % 256 :: bytes)
  | _ => none

end ClusterConfig.Base64
