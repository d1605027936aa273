/-!
# A place in a YAML text

The characters still to read, with the line and the column they start at. A line break is a line
feed, a carriage return, both together, a next-line character, or a line or paragraph separator; all
but the last two read as a line feed.
-/

set_option autoImplicit false

namespace ClusterConfig.Yaml

def isSpaceOrTab (c : Char) : Bool := c = ' ' || c = '\t'

def isSeparator (c : Char) : Bool := c = '\u2028' || c = '\u2029'

def isLineBreak (c : Char) : Bool :=
  c = '\n' || c = '\r' || c = '\u0085' || isSeparator c

def isSpaceOrBreak (c : Char) : Bool := isSpaceOrTab c || isLineBreak c

/-- The text is over here, or a blank or a line break follows. -/
def endsWord : List Char → Bool
  | [] => true
  | c :: _ => isSpaceOrBreak c

def isByteOrderMark (c : Char) : Bool := c = '\uFEFF'

/-- Characters a stream may hold at all. -/
def isStreamChar (c : Char) : Bool :=
  let n := c.toNat
  n = 0x09 || n = 0x0A || n = 0x0D || (0x20 ≤ n && n ≤ 0x7E) || n = 0x85 || (0xA0 ≤ n && n ≤ 0xD7FF)
    || (0xE000 ≤ n && n ≤ 0xFFFD) || 0x10000 ≤ n

/-- Letters, digits, hyphen and underscore. -/
def isNameChar (c : Char) : Bool := c.isAlphanum || c = '-' || c = '_'

structure Cursor where
  rest : List Char
  index : Nat
  line : Nat
  column : Nat

namespace Cursor

def ofChars (text : List Char) : Cursor := ⟨text, 0, 0, 0⟩

/-- Moves on within the line. -/
def advance (c : Cursor) (n : Nat) : Cursor :=
  ⟨c.rest.drop n, c.index + n, c.line, c.column + n⟩

def advanceWhile (p : Char → Bool) (c : Cursor) : Cursor := c.advance (c.rest.takeWhile p).length

/-- The line break at the cursor, as it is read, and the start of the next line. -/
def lineBreak? (c : Cursor) : Option (Char × Cursor) :=
  match c.rest with
  | '\r' :: '\n' :: rest => some ('\n', ⟨rest, c.index + 2, c.line + 1, 0⟩)
  | b :: rest =>
    if isLineBreak b then
      some (if isSeparator b then b else '\n', ⟨rest, c.index + 1, c.line + 1, 0⟩)
    else none
  | [] => none

def skipBreak (c : Cursor) : Cursor :=
  match c.lineBreak? with
  | some (_, next) => next
  | none => c

def atEnd (c : Cursor) : Bool := c.rest.isEmpty

def startsWith (p : Char → Bool) (c : Cursor) : Bool := c.rest.head?.any p

def atSpaceOrTab : Cursor → Bool := startsWith isSpaceOrTab

def atBreak : Cursor → Bool := startsWith isLineBreak

def atWordEnd (c : Cursor) : Bool := endsWord c.rest

def skipSpacesAndTabs (c : Cursor) : Cursor := c.advanceWhile isSpaceOrTab

/-- Skips a comment, if one starts here, up to the end of its line. -/
def skipComment (c : Cursor) : Cursor :=
  match c.rest with
  | '#' :: _ => c.advanceWhile fun x => !isLineBreak x
  | _ => c

/-- The rest of a line that may only hold blanks and a comment. -/
def restOfLine? (c : Cursor) : Option Cursor :=
  let c := c.skipSpacesAndTabs.skipComment
  if c.atEnd || c.atBreak then some c.skipBreak else none

end Cursor

/-- The mark at the start of a line that begins or ends a document. -/
inductive Boundary where
  | start
  | stop

def boundary? (c : Cursor) : Option Boundary :=
  if c.column = 0 then
    match c.rest with
    | '-' :: '-' :: '-' :: rest => if endsWord rest then some .start else none
    | '.' :: '.' :: '.' :: rest => if endsWord rest then some .stop else none
    | _ => none
  else none

end ClusterConfig.Yaml
