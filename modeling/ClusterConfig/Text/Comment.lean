import ClusterConfig.Text.Lines

/-!
# Comments in configuration text

`stripComments` goes through the lines once. A `#` at the start of a line or after a blank opens a
comment unless it is inside quotes, and quotes only open where a scalar can start. The body of a
block scalar, which ends with the first line indented no deeper than its parent, is kept as it is.
-/

set_option autoImplicit false

namespace ClusterConfig.Text

/-- Where a line scan is: outside quotes or inside a quoted scalar. -/
inductive Quoting where
  | plain
  | single
  | double
deriving DecidableEq

def followsBlank : Option Char → Bool
  | none => true
  | some c => isAsciiBlank c

/-- Quotes open a scalar at the start of a line, after a blank or after an opening mark. -/
def startsScalar : Option Char → Bool
  | none => true
  | some c => isAsciiBlank c || c = '[' || c = '\x7b' || c = ','

def quotingAfter (previous : Option Char) (c : Char) : Quoting :=
  if startsScalar previous then
    if c = '\'' then .single else if c = '"' then .double else .plain
  else .plain

/-- The part of a line before its comment, if there is a comment. -/
def beforeComment? : Quoting → Option Char → List Char → Option (List Char)
  | _, _, [] => none
  | .plain, previous, c :: rest =>
    if c = '#' && followsBlank previous then some []
    else (beforeComment? (quotingAfter previous c) (some c) rest).map (c :: ·)
  | .single, _, '\'' :: '\'' :: rest =>
    (beforeComment? .single (some '\'') rest).map fun s => '\'' :: '\'' :: s
  | .single, _, c :: rest =>
    (beforeComment? (if c = '\'' then .plain else .single) (some c) rest).map (c :: ·)
  | .double, _, '\\' :: c :: rest =>
    (beforeComment? .double (some '\\') rest).map fun s => '\\' :: c :: s
  | .double, _, c :: rest =>
    (beforeComment? (if c = '"' then .plain else .double) (some c) rest).map (c :: ·)

/-- A line without its comment and the blanks before that. -/
def stripLine (content : List Char) : List Char :=
  match beforeComment? .plain none content with
  | some kept => trimEndChars kept
  | none => content

def isHeaderDetail (c : Char) : Bool := c.isDigit || c = '+' || c = '-'

/-- Whether a line ends with the header of a block scalar that stands alone or follows a colon or
a dash and blanks. -/
def opensBlock (content : List Char) : Bool :=
  match (trimEndChars content).reverse.dropWhile isHeaderDetail with
  | [] => false
  | mark :: before =>
    (mark = '|' || mark = '>') &&
      match before.dropWhile isBlank with
      | [] => true
      | c :: _ => (c = ':' || c = '-') && (before.head?.map isBlank).getD false

/-- The width in bytes of the blanks that a line starts with. -/
def indentWidth (content : List Char) : Nat := byteCount (content.takeWhile isBlank)

/-- Moves past `- ` marks in front of an item that is not a block scalar itself. -/
def skipDashes : Nat → Nat → List Char → Nat
  | 0, column, _ => column
  | fuel + 1, column, rest =>
    match rest with
    | '-' :: after =>
      let item := trimStartChars after
      if item.length = after.length || item.head? = some '|' || item.head? = some '>' then column
      else skipDashes fuel (column + 1 + byteCount (after.takeWhile isBlank)) item
    | _ => column

/-- The column that the body of a block scalar has to be indented beyond. -/
def parentColumn (content : List Char) : Nat :=
  skipDashes content.length (indentWidth content) (trimStartChars content)

def isBlankLine (content : List Char) : Bool := content.all isBlank

/-- Whether a line belongs to the body of an open block scalar. -/
def inBlock (block : Option Nat) (content : List Char) : Bool :=
  match block with
  | none => false
  | some parent => isBlankLine content || parent < indentWidth content

/-- The content of a raw line and its newline, which the last line may lack. -/
def splitNewline (line : List Char) : List Char × List Char :=
  match beforeEnd? ['\n'] line with
  | some content => (content, ['\n'])
  | none => (line, [])

/-- The block that is open after a line outside of any block body. -/
def blockAfter (content : List Char) : Option Nat :=
  if opensBlock (stripLine content) then some (parentColumn content) else none

def stripRawLines : Option Nat → List (List Char) → List Char
  | _, [] => []
  | block, line :: rest =>
    let (content, newline) := splitNewline line
    if inBlock block content then line ++ stripRawLines block rest
    else stripLine content ++ newline ++ stripRawLines (blockAfter content) rest

/-- Removes the comments of a text, line by line. -/
def stripComments (text : String) : String :=
  String.ofList (stripRawLines none (rawLines text.toList))

end ClusterConfig.Text
