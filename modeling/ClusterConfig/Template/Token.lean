import ClusterConfig.Decimal.Binary64
import ClusterConfig.Template.Normal
import ClusterConfig.Text.Digits

/-!
# Tokens of a template

A template is plain text with outputs, tags and comments between braces. A dash beside a brace
removes the blanks on its side. Only tags named `raw` hold text that is not looked into.
-/

set_option autoImplicit false

namespace ClusterConfig.Template

inductive Token where
  | data (text : String)
  | outputStart
  | outputEnd
  | tagStart
  | tagEnd
  | name (text : String)
  | quoted (value : String)
  | int (value : Nat)
  | float (value : Binary64)
  | sign (text : String)
deriving DecidableEq

namespace Token

/-- What a `-` or `+` beside a brace asks for. -/
def trimMark? : List Char → Option (Bool × List Char)
  | '-' :: rest => some (true, rest)
  | '+' :: rest => some (false, rest)
  | _ => none

/-- Whether blanks are to be removed, and what follows the mark that says so. -/
def readTrim (text : List Char) : Bool × List Char := (trimMark? text).getD (false, text)

/-- The text before the first opening brace pair, the second character of the pair and the rest. -/
def splitOpening? : List Char → Option (List Char × Char × List Char)
  | [] => none
  | [_] => none
  | c :: d :: rest =>
    if c = '{' && (d = '{' || d = '%' || d = '#') then some ([], d, rest)
    else (splitOpening? (d :: rest)).map fun found => (c :: found.1, found.2)

def isNameStart (c : Char) : Bool := c.isAlpha || c = '_'

def isNameChar (c : Char) : Bool := c.isAlphanum || c = '_'

def data? (text : List Char) : List Token :=
  if text.isEmpty then [] else [.data (String.ofList text)]

/-- Reads a tag of one word after its brace: whether blanks after it go, and the rest. -/
def bareTag? (word : List Char) (text : List Char) : Option (Bool × List Char) := do
  let rest ← Text.afterStart? word (text.dropWhile Text.isAsciiBlank)
  let (trim, rest) := readTrim (rest.dropWhile Text.isAsciiBlank)
  let rest ← Text.afterStart? tagClosing rest
  return (trim, rest)

/-- The text of a raw block up to its closing tag. -/
def rawText? : Nat → List Char → Option (List Char × Bool × Bool × List Char)
  | 0, _ => none
  | fuel + 1, text => do
    let (before, rest) ← Text.splitAt? tagOpening text
    let (trimBefore, inside) := readTrim rest
    match bareTag? "endraw".toList inside with
    | some (trimAfter, rest) => some (before, trimBefore, trimAfter, rest)
    | none => do
      let (more, found) ← rawText? fuel rest
      return (before ++ tagOpening ++ more, found)

/-- The value of the escape after a backslash, in code units of 16 bits. -/
def readUnit : List Char → Option (Nat × List Char)
  | a :: b :: c :: d :: rest => do
    let digits ← [a, b, c, d].mapM hex?
    return (digits.foldl (fun n digit => n * 16 + digit) 0, rest)
  | _ => none
where
  hex? (c : Char) : Option Nat :=
    if c.isDigit then some (c.toNat - 48)
    else if 'a' ≤ c && c ≤ 'f' then some (c.toNat - 87)
    else if 'A' ≤ c && c ≤ 'F' then some (c.toNat - 55)
    else none

/-- The character that a simple escape stands for. -/
def escaped? (c : Char) : Option Char :=
  if c = '"' || c = '\\' || c = '/' || c = '\'' then some c
  else if c = 'b' then some '\x08'
  else if c = 'f' then some '\x0c'
  else if c = 'n' then some '\n'
  else if c = 'r' then some '\r'
  else if c = 't' then some '\t'
  else none

/-- Replaces the escapes of a quoted text. -/
def unescape : Nat → List Char → Option (List Char)
  | 0, _ => none
  | _, [] => some []
  | fuel + 1, '\\' :: 'u' :: rest => do
    let (unit, rest) ← readUnit rest
    if 0xD800 ≤ unit && unit < 0xDC00 then
      match rest with
      | '\\' :: 'u' :: rest =>
        let (low, rest) ← readUnit rest
        if 0xDC00 ≤ low && low < 0xE000 then
          return Char.ofNat (0x10000 + (unit - 0xD800) * 0x400 + (low - 0xDC00)) ::
            (← unescape fuel rest)
        else none
      | _ => none
    else if 0xDC00 ≤ unit && unit < 0xE000 then none
    else return Char.ofNat unit :: (← unescape fuel rest)
  | _, '\\' :: [] => none
  | fuel + 1, '\\' :: c :: rest => do return (← escaped? c) :: (← unescape fuel rest)
  | fuel + 1, c :: rest => do return c :: (← unescape fuel rest)

/-- What stands before the closing quote and after it. -/
def splitQuoted? (quote : Char) : List Char → Option (List Char × List Char)
  | [] => none
  | '\\' :: c :: rest => (splitQuoted? quote rest).map fun found => ('\\' :: c :: found.1, found.2)
  | c :: rest =>
    if c = quote then some ([], rest)
    else (splitQuoted? quote rest).map fun found => (c :: found.1, found.2)

/-- Where the reading of a number stands. -/
inductive NumberPart where
  | whole | fraction | exponentMark | exponent
deriving DecidableEq

def numberStep : NumberPart → Char → Option NumberPart
  | .whole, '.' => some .fraction
  | .whole, 'e' => some .exponentMark
  | .whole, 'E' => some .exponentMark
  | .fraction, 'e' => some .exponentMark
  | .fraction, 'E' => some .exponentMark
  | .exponentMark, '+' => some .exponent
  | .exponentMark, '-' => some .exponent
  | part, '_' => some part
  | part, c =>
    if c.isDigit then some (if part = .exponentMark then .exponent else part) else none

/-- The characters of a decimal number and the part that it ends in. -/
def spanNumber : NumberPart → List Char → List Char × NumberPart × List Char
  | part, [] => ([], part, [])
  | part, c :: rest =>
    match numberStep part c with
    | none => ([], part, c :: rest)
    | some next => let (more, found) := spanNumber next rest; (c :: more, found)

/-- The value of decimal text with a point or an exponent. -/
def floatValue? (text : List Char) : Option Binary64 := do
  let mantissa := text.takeWhile fun c => c.isDigit || c = '.'
  let whole := mantissa.takeWhile Char.isDigit
  let fraction := (mantissa.dropWhile Char.isDigit).drop 1
  let power ←
    match text.drop mantissa.length with
    | [] => some 0
    | _ :: rest =>
      let negative := rest.head? = some '-'
      let digits := if negative || rest.head? = some '+' then rest.drop 1 else rest
      if digits.isEmpty then none
      else some (if negative then -(Text.decimalValue digits : Int) else Text.decimalValue digits)
  return Binary64.ofDecimal false (Text.decimalValue (whole ++ fraction)) (power - fraction.length)

/-- The largest whole number that may be written. -/
def largestInt : Nat := Nat.pow 2 128 - 1

def radixDigit? (radix : Nat) (c : Char) : Option Nat :=
  match readUnit ['0', '0', '0', c] with
  | some (digit, _) => if digit < radix then some digit else none
  | none => none

/-- The value of digits in a radix. -/
def radixValue? (radix : Nat) (digits : List Char) : Option Nat :=
  if digits.isEmpty then none
  else do
    let values ← digits.mapM (radixDigit? radix)
    let n := values.foldl (fun n digit => n * radix + digit) 0
    if n ≤ largestInt then some n else none

def radixOf? (c : Char) : Option Nat :=
  if c = 'b' || c = 'B' then some 2
  else if c = 'o' || c = 'O' then some 8
  else if c = 'x' || c = 'X' then some 16
  else none

/-- Underscores may stand inside a number but not at its end. -/
def withoutUnderscores? (digits : List Char) : Option (List Char) :=
  if digits.getLast? = some '_' then none else some (digits.filter fun c => c ≠ '_')

def readDecimal? (text : List Char) : Option (Token × List Char) := do
  let (digits, part, rest) := spanNumber .whole text
  let digits ← withoutUnderscores? digits
  if part = .whole then return (.int (← radixValue? 10 digits), rest)
  else return (.float (← floatValue? digits), rest)

def readNumber? (text : List Char) : Option (Token × List Char) :=
  match text with
  | '0' :: mark :: rest =>
    match radixOf? mark with
    | none => readDecimal? text
    | some radix => do
      let inRadix := fun (c : Char) =>
        c.isDigit || c = '_' || (radix = 16 && (radixDigit? 16 c).isSome)
      let digits ← withoutUnderscores? (rest.takeWhile inRadix)
      return (.int (← radixValue? radix digits), rest.dropWhile inRadix)
  | _ => readDecimal? text

def pairSigns : List String := ["//", "**", "==", "!=", ">=", "<="]

def signs : List Char :=
  ['+', '-', '*', '/', '%', '.', ',', ':', '~', '|', '=', '>', '<', '(', ')', '[', ']', '{', '}']

/-- Reads the token at the start of a text that does not start with a blank. -/
def read? : List Char → Option (Token × List Char)
  | [] => none
  | c :: rest =>
    let pair := String.ofList (c :: rest.take 1)
    if pairSigns.contains pair then some (.sign pair, rest.drop 1)
    else if signs.contains c then some (.sign (String.singleton c), rest)
    else if c = '"' || c = '\'' then do
      let (inside, rest) ← splitQuoted? c rest
      return (.quoted (String.ofList (← unescape (inside.length + 1) inside)), rest)
    else if c.isDigit then readNumber? (c :: rest)
    else if isNameStart c then
      some (.name (String.ofList (c :: rest.takeWhile isNameChar)), rest.dropWhile isNameChar)
    else none

/-- How a token changes the number of open brackets. -/
def bracketStep : Token → Int
  | .sign "(" => 1
  | .sign "[" => 1
  | .sign "\x7b" => 1
  | .sign ")" => -1
  | .sign "]" => -1
  | .sign "\x7d" => -1
  | _ => 0

/-- Reads the end of an output or tag: whether the blanks after it go, and the rest. -/
def closing? (ending text : List Char) : Option (Bool × List Char) :=
  match trimMark? text with
  | some (trim, rest) => (Text.afterStart? ending rest).map fun rest => (trim, rest)
  | none => (Text.afterStart? ending text).map fun rest => (false, rest)

/-- The tokens up to the end of an output or tag, whether the blanks after it go, and the rest. -/
def readInside : Nat → List Char → Int → List Char → Option (List Token × Bool × List Char)
  | 0, _, _, _ => none
  | fuel + 1, ending, brackets, text =>
    let text := text.dropWhile Text.isAsciiBlank
    match if brackets = 0 then closing? ending text else none with
    | some found => some ([], found)
    | none => do
      let (token, rest) ← read? text
      let (more, found) ← readInside fuel ending (brackets + token.bracketStep) rest
      return (token :: more, found)

/-- The tokens of a text; `trim` says whether the blanks at its start go. -/
def readAll : Nat → (trim : Bool) → List Char → Option (List Token)
  | 0, _, _ => none
  | fuel + 1, trim, text =>
    let text := if trim then Text.trimStartChars text else text
    match splitOpening? text with
    | none => some (data? text)
    | some (lead, kind, rest) =>
      let (trimLead, inside) := readTrim rest
      let lead := data? (if trimLead then Text.trimEndChars lead else lead)
      if kind = '#' then do
        let (comment, rest) ← Text.splitAt? ['#', '}'] inside
        return lead ++ (← readAll fuel (comment.getLast? = some '-') rest)
      else if kind = '{' then do
        let (tokens, trim, rest) ← readInside (inside.length + 1) outputClosing 0 inside
        return lead ++ .outputStart :: tokens ++ .outputEnd :: (← readAll fuel trim rest)
      else
        match bareTag? "raw".toList inside with
        | some (trimStart, rest) => do
          let (raw, trimEnd, trim, rest) ← rawText? (rest.length + 1) rest
          let raw := if trimStart then Text.trimStartChars raw else raw
          let raw := if trimEnd then Text.trimEndChars raw else raw
          return lead ++ data? raw ++ (← readAll fuel trim rest)
        | none => do
          let (tokens, trim, rest) ← readInside (inside.length + 1) tagClosing 0 inside
          return lead ++ .tagStart :: tokens ++ .tagEnd :: (← readAll fuel trim rest)

/-- A template without the line end that closes its text. -/
def withoutLastLineEnd (text : List Char) : List Char :=
  let text := (Text.beforeEnd? ['\n'] text).getD text
  (Text.beforeEnd? ['\r'] text).getD text

/-- The tokens of a template, unless something in it is left open. -/
def ofText? (text : List Char) : Option (List Token) :=
  let text := withoutLastLineEnd text
  readAll (text.length + 1) false text

end Token

end ClusterConfig.Template
