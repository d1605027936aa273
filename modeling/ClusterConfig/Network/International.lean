import ClusterConfig.Text.Base64
import ClusterConfig.Text.Blank
import ClusterConfig.Text.Case
import ClusterConfig.Text.Printable
import ClusterConfig.Json.Reader

/-!
# International domain names

The name of a host in a URL may escape bytes with `%` and may use letters beyond ASCII, either as
they are or in labels that start with `xn--`. A label of that kind has to stand for a name with
such letters.
-/

set_option autoImplicit false

namespace ClusterConfig.Network

/-- Replaces each `%` that two hexadecimal digits follow by the byte that they stand for. -/
def percentDecoded : List UInt8 → List UInt8
  | [] => []
  | [a] => [a]
  | [a, b] => [a, b]
  | a :: b :: c :: rest =>
    match if a = 0x25 then hexPair? b c else none with
    | some byte => byte :: percentDecoded rest
    | none => a :: percentDecoded (b :: c :: rest)
where
  hexPair? (b c : UInt8) : Option UInt8 := do
    let high ← Json.hexValue? (Char.ofNat b.toNat)
    let low ← Json.hexValue? (Char.ofNat c.toNat)
    return UInt8.ofNat (high * 16 + low)

/-- ASCII characters that no name of a host may have. -/
def isForbidden (c : Char) : Bool :=
  c.toNat ≤ 0x20 || c.toNat = 0x7F || "#%/:<>?@[\\]^|".toList.contains c

namespace Punycode

/-- How the place of a digit is weighted. -/
def threshold (place bias : Nat) : Nat := max 1 (min 26 (place - bias))

/-- The bias for the number that follows. -/
def bias (delta points : Nat) (first : Bool) : Nat :=
  let delta := if first then delta / 700 else delta / 2
  shrink (delta + delta / points) 0 20
where
  shrink (delta place : Nat) : Nat → Nat
    | 0 => place
    | fuel + 1 =>
      if 455 < delta then shrink (delta / 35) (place + 36) fuel
      else place + 36 * delta / (delta + 38)

def digit? (c : Char) : Option Nat :=
  if c.isAlpha then some (c.toLower.toNat - 'a'.toNat)
  else if c.isDigit then some (c.toNat - '0'.toNat + 26)
  else none

/-- Reads a number whose digits grow in weight. -/
def readDelta (bias : Nat) (place weight sum : Nat) : List Char → Option (Nat × List Char)
  | [] => none
  | c :: rest => do
    let digit ← digit? c
    let sum := sum + digit * weight
    let t := threshold place bias
    if digit < t then return (sum, rest)
    else readDelta bias (place + 36) (weight * (36 - t)) sum rest

def largestPoint : Nat := 0x10FFFF

/-- Inserts the characters that the deltas stand for. -/
def insertAll : Nat → (point place biasNow : Nat) → List Nat → List Char → Option (List Nat)
  | _, _, _, _, points, [] => some points
  | 0, _, _, _, _, _ => none
  | fuel + 1, point, place, biasNow, points, digits => do
    let (delta, rest) ← readDelta biasNow 36 1 0 digits
    let size := points.length + 1
    let total := place + delta
    let point := point + total / size
    let spot := total % size
    if largestPoint < point then none
    else
      insertAll fuel point (spot + 1) (bias delta size (place = 0))
        (points.take spot ++ point :: points.drop spot) rest

/-- What stands before the last hyphen is plain, what follows tells what to insert. -/
def decode? (label : List Char) : Option (List Nat) :=
  let reversed := label.reverse
  let digits := (reversed.takeWhile (· ≠ '-')).reverse
  let plain := (reversed.drop (digits.length + 1)).reverse
  insertAll digits.length 128 0 72 (plain.map Char.toNat) digits

def digitChar (n : Nat) : Char := Char.ofNat (if n < 26 then n + 'a'.toNat else n - 26 + '0'.toNat)

/-- Writes a number with digits that grow in weight. -/
def writeDelta (bias : Nat) : Nat → (place delta : Nat) → List Char
  | 0, _, _ => []
  | fuel + 1, place, delta =>
    let t := threshold place bias
    if delta < t then [digitChar delta]
    else
      digitChar (t + (delta - t) % (36 - t)) ::
        writeDelta bias fuel (place + 36) ((delta - t) / (36 - t))

/-- How far the writing of a label has come. -/
structure Progress where
  written : List Char
  delta : Nat
  bias : Nat
  /-- The number of characters that are written. -/
  count : Nat

/-- Goes through a label and writes where one character stands in it. -/
def writePoint (plain : Nat) (label : List Nat) (point : Nat) (start : Progress) : Progress :=
  label.foldl (fun state c =>
    if c < point then { state with delta := state.delta + 1 }
    else if c = point then
      ⟨state.written ++ writeDelta state.bias (state.delta + 1) 36 state.delta, 0,
        bias state.delta (state.count + 1) (state.count = plain), state.count + 1⟩
    else state) start

/-- Writes the characters beyond ASCII in the order of their numbers. -/
def writeAll (plain : Nat) (label : List Nat) : (previous : Nat) → List Nat → Progress → Progress
  | _, [], state => state
  | previous, point :: rest, state =>
    let state := { state with delta := state.delta + (point - previous) * (state.count + 1) }
    let state := writePoint plain label point state
    writeAll plain label (point + 1) rest { state with delta := state.delta + 1 }

/-- The ASCII form of a label without its mark. -/
def encode (label : List Char) : List Char :=
  let points := label.map Char.toNat
  let plain := label.filter fun c => c.toNat < 128
  let others := ((points.filter (128 ≤ ·)).mergeSort).eraseDups
  let start : Progress :=
    ⟨if plain.isEmpty then [] else plain ++ ['-'], 0, 72, plain.length⟩
  (writeAll plain.length points 128 others start).written

end Punycode

/-- Characters that a name may be written with although they are not part of it. -/
def isIgnored (c : Char) : Bool :=
  let n := c.toNat
  n = 0xAD || n = 0x200B || n = 0x2060 || n = 0xFEFF || (0xFE00 ≤ n && n ≤ 0xFE0F)

/-- The characters that a character of a name is read as. -/
def mappedChar (c : Char) : List Char :=
  let n := c.toNat
  if isIgnored c then []
  else if n = 0x3002 || n = 0xFF0E || n = 0xFF61 then ['.']
  else if 0xFF01 ≤ n && n ≤ 0xFF5E then [(Char.ofNat (n - 0xFEE0)).toLower]
  else Text.lowerChar c

def isAscii (c : Char) : Bool := c.toNat < 128

/-- Characters beyond ASCII that a label may have, which a mark must not start. -/
def isInternational (label : List Char) : Bool :=
  (label.all fun c => isAscii c || (Text.isPrintable c && !Text.isBlank c)) &&
    !label.head?.any Text.isExtending

/-- Whether a label may be part of a name. -/
def isLabel (label : List Char) : Bool :=
  match Text.afterStart? ['x', 'n', '-', '-'] label with
  | none => isInternational label
  | some coded =>
    label.all isAscii &&
      match Punycode.decode? coded with
      | none => false
      | some points =>
        let decoded := points.map Char.ofNat
        decoded.any (fun c => !isAscii c) && isInternational decoded &&
          decoded.all fun c => mappedChar c = [c]

/-- The form of a label that has only ASCII characters. -/
def asciiLabel (label : List Char) : List Char :=
  if label.all isAscii then label else ['x', 'n', '-', '-'] ++ Punycode.encode label

/-- The name of a host without escapes, in lower case and in ASCII. -/
def domain? (host : List Char) : Option (List Char) := do
  let decoded ← String.fromUTF8? ⟨(percentDecoded (String.ofList host).toUTF8.toList).toArray⟩
  let name := decoded.toList.flatMap mappedChar
  let labels := Text.splitAll '.' name
  if name.any isForbidden || !labels.all isLabel then none
  else some (['.'].intercalate (labels.map asciiLabel))

end ClusterConfig.Network
