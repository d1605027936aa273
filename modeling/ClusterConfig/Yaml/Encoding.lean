/-!
# Text encodings

A stream of bytes is UTF-8, or UTF-16 if it starts with a byte order mark of that encoding.
-/

set_option autoImplicit false

namespace ClusterConfig.Yaml

/-- A code point that stands for a character. -/
def charOf? (n : Nat) : Option Char := if n.isValidChar then some (Char.ofNat n) else none

/-- The 16-bit units of bytes in pairs. -/
def unitsOf? (bigEndian : Bool) : List UInt8 → Option (List Nat)
  | [] => some []
  | a :: b :: rest =>
    let (high, low) := if bigEndian then (a, b) else (b, a)
    (unitsOf? bigEndian rest).map fun units => (high.toNat * 256 + low.toNat) :: units
  | [_] => none

/-- The characters of 16-bit units; a high surrogate has to stand before a low one. -/
def charsOfUnits? : List Nat → Option (List Char)
  | [] => some []
  | high :: rest =>
    if 0xD800 ≤ high && high < 0xDC00 then
      match rest with
      | low :: rest =>
        if 0xDC00 ≤ low && low < 0xE000 then do
          let c ← charOf? (0x10000 + (high - 0xD800) * 0x400 + (low - 0xDC00))
          (charsOfUnits? rest).map (c :: ·)
        else none
      | [] => none
    else do
      let c ← charOf? high
      (charsOfUnits? rest).map (c :: ·)

/-- The text of a stream of bytes. -/
def decode? (bytes : ByteArray) : Option String :=
  match bytes.toList with
  | 0xFF :: 0xFE :: rest => ((unitsOf? false rest).bind charsOfUnits?).map String.ofList
  | 0xFE :: 0xFF :: rest => ((unitsOf? true rest).bind charsOfUnits?).map String.ofList
  | _ => String.fromUTF8? bytes

end ClusterConfig.Yaml
