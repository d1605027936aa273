import ClusterConfig.Json.Basic

/-!
# Reading a document from its text

A recursive descent over the characters; the fuel is the length of the text. A number without
fraction and exponent that fits 64 bits is an integer. Any other number is a float, computed from
its first digits that fit 64 bits and one rounded power of ten.
-/

set_option autoImplicit false

namespace ClusterConfig.Json

def isBlank (c : Char) : Bool := c = ' ' || c = '\n' || c = '\t' || c = '\r'

def skipBlanks (text : List Char) : List Char := text.dropWhile isBlank

def hexValue? (c : Char) : Option Nat :=
  if '0' ≤ c && c ≤ '9' then some (c.toNat - '0'.toNat)
  else if 'a' ≤ c && c ≤ 'f' then some (c.toNat - 'a'.toNat + 10)
  else if 'A' ≤ c && c ≤ 'F' then some (c.toNat - 'A'.toNat + 10)
  else none

def readHex4 : List Char → Option (Nat × List Char)
  | a :: b :: c :: d :: rest => do
    let a ← hexValue? a
    let b ← hexValue? b
    let c ← hexValue? c
    let d ← hexValue? d
    some (((a * 16 + b) * 16 + c) * 16 + d, rest)
  | _ => none

/-- The character of an escape, after its backslash. -/
def readEscape : List Char → Option (Char × List Char)
  | '"' :: rest => some ('"', rest)
  | '\\' :: rest => some ('\\', rest)
  | '/' :: rest => some ('/', rest)
  | 'b' :: rest => some ('\x08', rest)
  | 'f' :: rest => some ('\x0c', rest)
  | 'n' :: rest => some ('\n', rest)
  | 'r' :: rest => some ('\r', rest)
  | 't' :: rest => some ('\t', rest)
  | 'u' :: rest => do
    let (high, rest) ← readHex4 rest
    if 0xD800 ≤ high && high < 0xDC00 then
      match rest with
      | '\\' :: 'u' :: rest => do
        let (low, rest) ← readHex4 rest
        if 0xDC00 ≤ low && low < 0xE000 then
          some (Char.ofNat (0x10000 + (high - 0xD800) * 0x400 + (low - 0xDC00)), rest)
        else none
      | _ => none
    else if 0xDC00 ≤ high && high < 0xE000 then none
    else some (Char.ofNat high, rest)
  | _ => none

/-- The rest of a string after its opening quote; `acc` holds what was read, backwards. -/
def readString : Nat → List Char → List Char → Option (String × List Char)
  | 0, _, _ => none
  | fuel + 1, text, acc =>
    match text with
    | [] => none
    | '"' :: rest => some (String.ofList acc.reverse, rest)
    | '\\' :: rest => do
      let (c, rest) ← readEscape rest
      readString fuel rest (c :: acc)
    | c :: rest => if c.toNat < 32 then none else readString fuel rest (c :: acc)

def digitsValue (digits : List Char) : Nat :=
  digits.foldl (fun acc c => acc * 10 + (c.toNat - '0'.toNat)) 0

def largestWord : Nat := Nat.pow 2 64 - 1

/-- The value of the leading digits that stay within a 64-bit word, and how many are left over. -/
def leadingWord (acc : Nat) : List Char → Nat × Nat
  | [] => (acc, 0)
  | c :: rest =>
    let next := acc * 10 + (c.toNat - '0'.toNat)
    if next ≤ largestWord then leadingWord next rest else (acc, rest.length + 1)

/-- A word times a power of ten: both are rounded, then their product or quotient. -/
def scaleWord (negative : Bool) (word : Nat) (power : Int) : Option Binary64 :=
  let start := Binary64.ofRatio negative word 1
  if word = 0 then some start
  else if 308 < power then none
  else if 0 ≤ power then
    let value := Binary64.mulAbs negative start (Binary64.ofRatio false (Nat.pow 10 power.toNat) 1)
    if value.isFinite then some value else none
  else if -308 ≤ power then
    some (Binary64.divAbs negative start (Binary64.ofRatio false (Nat.pow 10 (-power).toNat) 1))
  else if -616 ≤ power then
    let step := Binary64.divAbs negative start (Binary64.ofRatio false (Nat.pow 10 308) 1)
    some (Binary64.divAbs negative step (Binary64.ofRatio false (Nat.pow 10 (-power - 308).toNat) 1))
  else some (Binary64.ofMagnitude negative 0)

def readFloat (negative : Bool) (whole fraction : List Char) (power : Int) : Option Binary64 :=
  let (word, left) := leadingWord 0 whole
  if left = 0 then
    let (word, dropped) := leadingWord word fraction
    scaleWord negative word (power - ((fraction.length - dropped : Nat) : Int))
  else scaleWord negative word (power + (left : Int))

def readExponent (text : List Char) : Option (Int × List Char) :=
  let (negative, text) :=
    match text with
    | '+' :: rest => (false, rest)
    | '-' :: rest => (true, rest)
    | _ => (false, text)
  let digits := text.takeWhile Char.isDigit
  if digits.isEmpty then none
  else
    let value : Int := digitsValue digits
    some (if negative then -value else value, text.dropWhile Char.isDigit)

def readNumber (text : List Char) : Option (Json × List Char) := do
  let (negative, text) :=
    match text with
    | '-' :: rest => (true, rest)
    | _ => (false, text)
  let whole := text.takeWhile Char.isDigit
  let text := text.dropWhile Char.isDigit
  if whole.isEmpty || (whole.head? = some '0' && whole.length ≠ 1) then none
  let (fraction, text) ←
    match text with
    | '.' :: rest =>
      let digits := rest.takeWhile Char.isDigit
      if digits.isEmpty then none else some (some digits, rest.dropWhile Char.isDigit)
    | _ => some (none, text)
  let (power, text) ←
    match text with
    | 'e' :: rest => (readExponent rest).map fun r => (some r.1, r.2)
    | 'E' :: rest => (readExponent rest).map fun r => (some r.1, r.2)
    | _ => some (none, text)
  let value := digitsValue whole
  if fraction.isNone && power.isNone && value ≤ largestWord && !negative then
    some (.int value, text)
  else if fraction.isNone && power.isNone && negative && 0 < value && value ≤ Nat.pow 2 63 then
    some (.int (-value), text)
  else do
    let float ← readFloat negative whole (fraction.getD []) (power.getD 0)
    some (.float float, text)

mutual

def readValue : Nat → List Char → Option (Json × List Char)
  | 0, _ => none
  | fuel + 1, text =>
    match skipBlanks text with
    | 'n' :: 'u' :: 'l' :: 'l' :: rest => some (.null, rest)
    | 't' :: 'r' :: 'u' :: 'e' :: rest => some (.bool true, rest)
    | 'f' :: 'a' :: 'l' :: 's' :: 'e' :: rest => some (.bool false, rest)
    | '"' :: rest => (readString (rest.length + 1) rest []).map fun r => (.str r.1, r.2)
    | '[' :: rest =>
      match skipBlanks rest with
      | ']' :: rest => some (.arr [], rest)
      | rest => (readItems fuel rest).map fun r => (.arr r.1, r.2)
    | '\x7b' :: rest =>
      match skipBlanks rest with
      | '\x7d' :: rest => some (.obj [], rest)
      | rest => (readMembers fuel rest []).map fun r => (.obj r.1, r.2)
    | rest => readNumber rest

def readItems : Nat → List Char → Option (List Json × List Char)
  | 0, _ => none
  | fuel + 1, text => do
    let (item, rest) ← readValue fuel text
    match skipBlanks rest with
    | ',' :: rest => do
      let (items, rest) ← readItems fuel rest
      some (item :: items, rest)
    | ']' :: rest => some ([item], rest)
    | _ => none

def readMembers : Nat → List Char → List (String × Json) → Option (List (String × Json) × List Char)
  | 0, _, _ => none
  | fuel + 1, text, acc =>
    match skipBlanks text with
    | '"' :: rest => do
      let (name, rest) ← readString (rest.length + 1) rest []
      match skipBlanks rest with
      | ':' :: rest => do
        let (value, rest) ← readValue fuel rest
        let acc := Members.put acc name value
        match skipBlanks rest with
        | ',' :: rest => readMembers fuel rest acc
        | '\x7d' :: rest => some (acc, rest)
        | _ => none
      | _ => none
    | _ => none

end

/-- The document that a text spells, if it spells exactly one. -/
def parse? (text : String) : Option Json := do
  let chars := text.toList
  let (value, rest) ← readValue (chars.length + 1) chars
  if (skipBlanks rest).isEmpty then some value else none

end ClusterConfig.Json
