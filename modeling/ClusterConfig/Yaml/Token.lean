import ClusterConfig.Yaml.Scalar

/-!
# Tokens

The marks of a YAML text: scalars, anchors, tags, indicators, directives, and the starts and ends of
block collections, which the indentation gives.
-/

set_option autoImplicit false

namespace ClusterConfig.Yaml

inductive Token where
  | version (major minor : Nat)
  | handle (name replacement : List Char)
  | documentStart
  | documentEnd
  | blockSequence
  | blockMapping
  | blockEnd
  | flowSequence
  | flowSequenceEnd
  | flowMapping
  | flowMappingEnd
  | blockEntry
  | flowEntry
  | key
  | value
  | alias (name : List Char)
  | anchor (name : List Char)
  | tag (handle suffix : List Char)
  | scalar (style : Style) (text : List Char)
  /-- The text goes on with no token. -/
  | invalid

/-! ## Names -/

/-- What may follow the name of an anchor or an alias. -/
def endsAnchor : List Char → Bool
  | [] => true
  | c :: _ => isSpaceOrBreak c || c = '?' || c = ':' || c = ',' || c = ']' || c = '}' || c = '%'
      || c = '@' || c = '\x60'

/-- The name after the indicator of an anchor or an alias. -/
def readAnchor (c : Cursor) : Option (List Char × Cursor) :=
  let c := c.advance 1
  let name := c.rest.takeWhile isNameChar
  let c := c.advance name.length
  if name.isEmpty || !endsAnchor c.rest then none else some (name, c)

def isUriChar (c : Char) : Bool :=
  isNameChar c || ";/?:@&=+$.!~*'()".toList.contains c

/-- Flow indicators that only a complete address may hold. -/
def isAddressChar (c : Char) : Bool := c = ',' || c = '[' || c = ']'

def escapedByte? : List Char → Option (Nat × List Char)
  | '%' :: a :: b :: rest => do
    let high ← Json.hexValue? a
    let low ← Json.hexValue? b
    some (high * 16 + low, rest)
  | _ => none

/-- The bytes that go on a character, added to what its first byte holds. -/
def escapedTail : Nat → Nat → List Char → Option (Nat × List Char)
  | 0, acc, text => some (acc, text)
  | n + 1, acc, text => do
    let (byte, rest) ← escapedByte? text
    if byte / 64 ≠ 2 then none else escapedTail n (acc * 64 + byte % 64) rest

/-- A character written as escaped bytes, and how many characters of the text it takes. -/
def escapedChar? (text : List Char) : Option (Char × Nat) := do
  let (byte, rest) ← escapedByte? text
  let (tail, start) ←
    if byte < 128 then some (0, byte)
    else if byte / 32 = 6 then some (1, byte % 32)
    else if byte / 16 = 14 then some (2, byte % 16)
    else if byte / 8 = 30 then some (3, byte % 8)
    else none
  let (n, _) ← escapedTail tail start rest
  some (Char.ofNat n, 3 * (tail + 1))

def readUri (whole : Bool) : Nat → Cursor → Option (List Char × Cursor)
  | 0, _ => none
  | fuel + 1, c =>
    match c.rest with
    | '%' :: _ => do
      let (x, n) ← escapedChar? c.rest
      let (more, c) ← readUri whole fuel (c.advance n)
      some (x :: more, c)
    | x :: _ =>
      if isUriChar x || (whole && isAddressChar x) then do
        let (more, c) ← readUri whole fuel (c.advance 1)
        some (x :: more, c)
      else some ([], c)
    | [] => some ([], c)

/-- A non-empty address. -/
def readAddress (whole : Bool) (c : Cursor) : Option (List Char × Cursor) := do
  let (uri, rest) ← readUri whole (c.rest.length + 1) c
  if uri.isEmpty then none else some (uri, rest)

/-- The exclamation mark, the name after it, and a second mark if there is one. -/
def handleText (c : Cursor) : List Char × Cursor :=
  match c.rest with
  | '!' :: rest =>
    let name := rest.takeWhile isNameChar
    match rest.drop name.length with
    | '!' :: _ => ('!' :: (name ++ ['!']), c.advance (name.length + 2))
    | _ => ('!' :: name, c.advance (name.length + 1))
  | _ => ([], c)

/-- A handle and the rest of the name. Without a second exclamation mark the handle is the mark
alone; a mark with nothing after it is the name itself. -/
def readTagName (c : Cursor) : Option (List Char × List Char × Cursor) :=
  match c.rest with
  | '!' :: '<' :: _ => do
    let (suffix, c) ← readAddress true (c.advance 2)
    match c.rest with
    | '>' :: _ => some ([], suffix, c.advance 1)
    | _ => none
  | _ =>
    let (handle, c) := handleText c
    if 1 < handle.length && handle.getLast? = some '!' then do
      let (suffix, c) ← readAddress false c
      some (handle, suffix, c)
    else do
      let (more, c) ← readUri false (c.rest.length + 1) c
      let suffix := handle.drop 1 ++ more
      if suffix.isEmpty then some ([], ['!'], c) else some (['!'], suffix, c)

def readTag (flow : Bool) (c : Cursor) : Option (Token × Cursor) := do
  let (handle, suffix, c) ← readTagName c
  if c.atWordEnd || (flow && c.rest.head? = some ',') then some (.tag handle suffix, c) else none

/-! ## Directives -/

/-- A part of a version: at most nine digits. -/
def readVersionPart (c : Cursor) : Option (Nat × Cursor) :=
  let digits := c.rest.takeWhile Char.isDigit
  if digits.isEmpty || 9 < digits.length then none
  else some (Json.digitsValue digits, c.advance digits.length)

def readVersionDirective (c : Cursor) : Option (Token × Cursor) := do
  let (major, c) ← readVersionPart c.skipSpacesAndTabs
  match c.rest with
  | '.' :: _ => do
    let (minor, c) ← readVersionPart (c.advance 1)
    some (.version major minor, c)
  | _ => none

def readHandleDirective (c : Cursor) : Option (Token × Cursor) := do
  let (name, c) := handleText c.skipSpacesAndTabs
  if !(name = ['!'] || (1 < name.length && name.getLast? = some '!')) || !c.atSpaceOrTab then none
  let (replacement, c) ← readAddress true c.skipSpacesAndTabs
  if c.atWordEnd then some (.handle name replacement, c) else none

/-- A directive from its percent sign to the end of its line. -/
def readDirective (c : Cursor) : Option (Token × Cursor) := do
  let c := c.advance 1
  let name := c.rest.takeWhile isNameChar
  let c := c.advance name.length
  if !c.atWordEnd then none
  let (token, c) ←
    if name = ['Y', 'A', 'M', 'L'] then readVersionDirective c
    else if name = ['T', 'A', 'G'] then readHandleDirective c
    else none
  let c ← c.restOfLine?
  some (token, c)

end ClusterConfig.Yaml
