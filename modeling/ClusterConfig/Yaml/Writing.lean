import ClusterConfig.Yaml.Cursor
import ClusterConfig.Yaml.Plain
import ClusterConfig.Json.Printer

/-!
# How a string is written

A string with a line feed is written as a literal block, one that would read as something else in
single quotes, and any other plain. Where that form cannot hold the string, the next one can:
plain, single quoted, double quoted.
-/

set_option autoImplicit false

namespace ClusterConfig.Yaml

/-- The form of a written scalar. -/
inductive Form where
  | plain
  | single
  | double
  | literal
  deriving DecidableEq

/-- Characters that need no escape. -/
def isPrintable (c : Char) : Bool :=
  let n := c.toNat
  n = 0x0A || (0x20 ≤ n && n ≤ 0x7E) || (0xA0 ≤ n && n ≤ 0xD7FF)
    || (0xE000 ≤ n && n ≤ 0xFFFD && n ≠ 0xFEFF) || 0x10000 ≤ n

/-- A first character that would be read as an indicator. -/
def opensIndicator (c : Char) (rest : List Char) : Bool :=
  "#,[]{}&*!|>\'\"%@\x60".toList.contains c
    || ((c = '?' || c = ':' || c = '-') && endsWord rest)

/-- A later character that would be read as the start of a comment or the end of a key. -/
def hasInnerIndicator : (afterBlank : Bool) → List Char → Bool
  | _, [] => false
  | afterBlank, c :: rest =>
    (c = ':' && endsWord rest) || (c = '#' && afterBlank)
      || hasInnerIndicator (isSpaceOrBreak c) rest

def startsLikeBoundary : List Char → Bool
  | '-' :: '-' :: '-' :: _ => true
  | '.' :: '.' :: '.' :: _ => true
  | _ => false

/-- The text would be read as more than a plain scalar. -/
def hasIndicator (s : List Char) : Bool :=
  startsLikeBoundary s ||
    match s with
    | [] => false
    | c :: rest => opensIndicator c rest || hasInnerIndicator (isSpaceOrBreak c) rest

/-- Two neighbours of the given kinds, in this order. -/
def hasNeighbours (p q : Char → Bool) : List Char → Bool
  | a :: b :: rest => (p a && q b) || hasNeighbours p q (b :: rest)
  | _ => false

def isSpace (c : Char) : Bool := c = ' '

def isEdge (c : Char) : Bool := isSpace c || isLineBreak c

/-- Every character can stand for itself, and no line ends in a space. -/
def isWritable (s : List Char) : Bool := s.all isPrintable && !hasNeighbours isSpace isLineBreak s

def allowsPlain (s : List Char) : Bool :=
  isWritable s && !s.any isLineBreak && !hasIndicator s
    && !s.head?.any isEdge && !s.getLast?.any isEdge

def allowsSingle (s : List Char) : Bool := isWritable s && !hasNeighbours isLineBreak isSpace s

def allowsLiteral (s : List Char) : Bool :=
  isWritable s && !s.isEmpty && !s.getLast?.any isSpace

/-- The form that the meaning of a string asks for: as a plain scalar it would not be a string. -/
def wantsQuotes (s : String) : Bool :=
  Plain.isZeroPadded s.toList ||
    match Plain.ofText s with
    | .text => false
    | _ => true

def flowForm (wanted : Form) (s : List Char) : Form :=
  if wanted = .plain && allowsPlain s then .plain
  else if allowsSingle s then .single
  else .double

/-- The form of a string, as a key on one line or elsewhere. -/
def form (key : Bool) (s : String) : Form :=
  let chars := s.toList
  if key && chars.any isLineBreak then .double
  else if chars.contains '\n' then if allowsLiteral chars && !key then .literal else .double
  else flowForm (if wantsQuotes s then .single else .plain) chars

def spaces (n : Nat) : List Char := List.replicate n ' '

/-- The lines of a text, each indented unless it is empty; `atStart` tells whether a line begins. -/
def indentLines (indent : Nat) : (atStart : Bool) → List Char → List Char
  | _, [] => []
  | atStart, c :: rest =>
    if isLineBreak c then c :: indentLines indent true rest
    else (if atStart then spaces indent else []) ++ c :: indentLines indent false rest

/-- What follows the bar of a literal block: the indent if the text starts with a blank or a break,
and a sign if it does not end in exactly one line break. -/
def literalHeader (s : List Char) : List Char :=
  (if s.head?.any isEdge then ['2'] else []) ++
    match s.reverse with
    | [] => ['-']
    | last :: before =>
      if !isLineBreak last then ['-']
      else if before.isEmpty || before.head?.any isLineBreak then ['+']
      else []

def writeLiteral (indent : Nat) (s : List Char) : List Char :=
  '|' :: literalHeader s ++ '\n' :: indentLines indent true s

/-- The inside of a single quoted text. A line that follows a break is indented. -/
def singleInside (indent : Nat) : (atStart : Bool) → List Char → List Char
  | atStart, [] => if atStart then spaces indent else []
  | atStart, c :: rest =>
    if isLineBreak c then c :: singleInside indent true rest
    else
      (if atStart then spaces indent else []) ++
        (if c = '\'' then ['\'', '\''] else [c]) ++ singleInside indent false rest

def writeSingle (indent : Nat) (s : List Char) : List Char :=
  '\'' :: singleInside indent false s ++ ['\'']

/-- Upper case hexadecimal digits, `width` of them. -/
def hexDigits : (width : Nat) → Nat → List Char
  | 0, _ => []
  | width + 1, n => hexDigits width (n / 16) ++ [(Json.hexDigit (n % 16)).toUpper]

/-- How a character stands between double quotes. -/
def escape (c : Char) : List Char :=
  let n := c.toNat
  if c = '\x00' then ['\\', '0']
  else if n = 7 then ['\\', 'a']
  else if n = 8 then ['\\', 'b']
  else if c = '\t' then ['\\', 't']
  else if c = '\n' then ['\\', 'n']
  else if n = 11 then ['\\', 'v']
  else if n = 12 then ['\\', 'f']
  else if c = '\r' then ['\\', 'r']
  else if n = 27 then ['\\', 'e']
  else if c = '"' then ['\\', '"']
  else if c = '\\' then ['\\', '\\']
  else if n = 0x85 then ['\\', 'N']
  else if n = 0x2028 then ['\\', 'L']
  else if n = 0x2029 then ['\\', 'P']
  else if isPrintable c then [c]
  else if n ≤ 0xFF then '\\' :: 'x' :: hexDigits 2 n
  else if n ≤ 0xFFFF then '\\' :: 'u' :: hexDigits 4 n
  else '\\' :: 'U' :: hexDigits 8 n

def writeDouble (s : List Char) : List Char := '"' :: s.flatMap escape ++ ['"']

/-- A string in its form, the lines after the first indented. -/
def writeString (key : Bool) (indent : Nat) (s : String) : List Char :=
  match form key s with
  | .plain => s.toList
  | .single => writeSingle indent s.toList
  | .double => writeDouble s.toList
  | .literal => writeLiteral indent s.toList

end ClusterConfig.Yaml
