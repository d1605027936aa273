import ClusterConfig.Text.Digits
import ClusterConfig.Json.Reader

/-!
# Network addresses

Addresses of four octets or eight groups. The text of an address of eight groups shortens its
first longest run of two or more zero groups to `::`.
-/

set_option autoImplicit false

namespace ClusterConfig

/-- A network address of either family. -/
inductive IpAddress where
  | v4 (octets : List Nat)
  | v6 (groups : List Nat)
deriving DecidableEq

namespace IpAddress

/-- The number at the start of a text, of at most `most` digits, and what follows it. -/
def readNumber (radix most : Nat) (zeros : Bool) (s : List Char) : Option (Nat × List Char) :=
  let value? (c : Char) := (Json.hexValue? c).filter (· < radix)
  let digits := s.takeWhile fun c => (value? c).isSome
  if digits.isEmpty || most < digits.length then none
  else if !zeros && 1 < digits.length && digits.head? = some '0' then none
  else
    let value := digits.foldl (fun acc c => acc * radix + (value? c).getD 0) 0
    some (value, s.drop digits.length)

def readOctet (s : List Char) : Option (Nat × List Char) :=
  (readNumber 10 3 false s).filter fun read => read.1 < 256

/-- The rest of a text after a mark, unless it is the first part, which has none before it. -/
def afterMark? (mark : Char) (first : Bool) (s : List Char) : Option (List Char) :=
  if first then some s
  else
    match s with
    | c :: rest => if c = mark then some rest else none
    | [] => none

/-- Reads `count` octets with dots between them. -/
def readOctets : Nat → Bool → List Char → Option (List Nat × List Char)
  | 0, _, s => some ([], s)
  | count + 1, first, s => do
    let (octet, s) ← readOctet (← afterMark? '.' first s)
    let (octets, s) ← readOctets count false s
    some (octet :: octets, s)

def readV4 (s : List Char) : Option (List Nat × List Char) := readOctets 4 true s

/-- The two groups that four octets make up. -/
def groupsOfOctets : List Nat → List Nat
  | [a, b, c, d] => [a * 256 + b, c * 256 + d]
  | _ => []

/-- Reads at most `limit` groups with colons between them. The last two may be written as four
octets, which the flag tells. -/
def readGroups : Nat → Bool → List Char → List Nat × Bool × List Char
  | 0, _, s => ([], false, s)
  | limit + 1, first, s =>
    let octets := if 0 < limit then (afterMark? ':' first s).bind readV4 else none
    match octets with
    | some (octets, rest) => (groupsOfOctets octets, true, rest)
    | none =>
      match (afterMark? ':' first s).bind (readNumber 16 4 true) with
      | some (group, rest) =>
        let (groups, embedded, rest) := readGroups limit false rest
        (group :: groups, embedded, rest)
      | none => ([], false, s)

def readV6 (s : List Char) : Option (List Nat × List Char) :=
  let (head, embedded, rest) := readGroups 8 true s
  if head.length = 8 then some (head, rest)
  else if embedded then none
  else
    match rest with
    | ':' :: ':' :: rest =>
      let (tail, _, rest) := readGroups (7 - head.length) true rest
      some (head ++ List.replicate (8 - head.length - tail.length) 0 ++ tail, rest)
    | _ => none

/-- The address that the whole text spells. -/
def parse? (text : String) : Option IpAddress :=
  let s := text.toList
  match readV4 s with
  | some (octets, rest) => if rest.isEmpty then some (.v4 octets) else none
  | none =>
    match readV6 s with
    | some (groups, rest) => if rest.isEmpty then some (.v6 groups) else none
    | none => none

def dotted (octets : List Nat) : String := ".".intercalate (octets.map toString)

def hexGroup (n : Nat) : String := String.ofList (Nat.toDigits 16 n)

def colons (groups : List Nat) : String := ":".intercalate (groups.map hexGroup)

/-- The length of the run of zeros that a list starts with. -/
def zeroRun (groups : List Nat) : Nat := (groups.takeWhile (· == 0)).length

/-- Where the first longest run of zeros starts, and its length. -/
def longestRun : Nat → List Nat → Nat × Nat
  | _, [] => (0, 0)
  | place, group :: rest =>
    let here := zeroRun (group :: rest)
    let later := longestRun (place + 1) rest
    if 0 < here && later.2 ≤ here then (place, here) else later

/-- Hexadecimal groups, the first longest run of two or more zeros left out. -/
def shortened (groups : List Nat) : String :=
  let (place, length) := longestRun 0 groups
  if 1 < length then colons (groups.take place) ++ "::" ++ colons (groups.drop (place + length))
  else colons groups

/-- An address of octets in eight groups keeps its octets. -/
def textOfGroups (groups : List Nat) : String :=
  match groups with
  | [0, 0, 0, 0, 0, 0xffff, high, low] =>
    "::ffff:" ++ dotted [high / 256, high % 256, low / 256, low % 256]
  | _ => shortened groups

def text : IpAddress → String
  | .v4 octets => dotted octets
  | .v6 groups => textOfGroups groups

/-- The number of bits of an address of this family. -/
def width : IpAddress → Nat
  | .v4 _ => 32
  | .v6 _ => 128

end IpAddress

end ClusterConfig
