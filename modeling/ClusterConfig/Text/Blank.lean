/-!
# Blank characters

The white space of Unicode, and trimming by it. ASCII white space is the part that separates
words in configuration formats.
-/

set_option autoImplicit false

namespace ClusterConfig.Text

def isBlank (c : Char) : Bool :=
  let n := c.toNat
  (9 ≤ n && n ≤ 13) || n == 0x20 || n == 0x85 || n == 0xA0 || n == 0x1680 ||
    (0x2000 ≤ n && n ≤ 0x200A) || n == 0x2028 || n == 0x2029 || n == 0x202F || n == 0x205F ||
    n == 0x3000

/-- Space, tab, newline, form feed and carriage return. -/
def isAsciiBlank (c : Char) : Bool :=
  c = ' ' || c = '\t' || c = '\n' || c = '\x0c' || c = '\r'

def trimStartChars (s : List Char) : List Char := s.dropWhile isBlank

def trimEndChars (s : List Char) : List Char := (s.reverse.dropWhile isBlank).reverse

def trimChars (s : List Char) : List Char := trimEndChars (trimStartChars s)

def trim (s : String) : String := String.ofList (trimChars s.toList)

def trimEnd (s : String) : String := String.ofList (trimEndChars s.toList)

/-- The rest of a list after a beginning. -/
def afterStart? : List Char → List Char → Option (List Char)
  | [], s => some s
  | _, [] => none
  | p :: ps, c :: cs => if p = c then afterStart? ps cs else none

/-- The list without the ending, if it has it. -/
def beforeEnd? (ending s : List Char) : Option (List Char) :=
  (afterStart? ending.reverse s.reverse).map List.reverse

/-- The parts before and after the first occurrence of a character. -/
def splitFirst? (mark : Char) : List Char → Option (List Char × List Char)
  | [] => none
  | c :: rest =>
    if c = mark then some ([], rest)
    else (splitFirst? mark rest).map fun split => (c :: split.1, split.2)

/-- The parts between all occurrences of a character. -/
def splitAll (mark : Char) : List Char → List (List Char)
  | [] => [[]]
  | c :: rest =>
    if c = mark then [] :: splitAll mark rest
    else
      match splitAll mark rest with
      | [] => [[c]]
      | part :: parts => (c :: part) :: parts

/-- The number of bytes of the text in UTF-8. -/
def byteCount : List Char → Nat
  | [] => 0
  | c :: rest => c.utf8Size + byteCount rest

end ClusterConfig.Text
