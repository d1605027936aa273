import ClusterConfig.Yaml.Token

/-!
# The tokens of a text

The text is read from left to right. A token that may turn out to be a key of a mapping is
remembered until the colon after it or the end of its line; the colon then puts the key mark, and
the start of a block mapping where the indentation grows, in front of it.
-/

set_option autoImplicit false

namespace ClusterConfig.Yaml

/-- A token that may be a key written on one line. -/
structure KeyPlace where
  /-- How many tokens stand before it. -/
  position : Nat
  index : Nat
  line : Nat
  column : Nat
  /-- Its column is that of the enclosing block mapping, so it has to be a key. -/
  required : Bool

structure Scan where
  cursor : Cursor
  /-- The tokens so far, the last one first. -/
  tokens : List Token
  count : Nat
  /-- The column of the innermost block collection, then of those around it. -/
  indents : List Nat
  keyAllowed : Bool
  /-- One entry for the block context and for each open flow collection, the innermost first. -/
  keys : List (Option KeyPlace)

namespace Scan

def ofChars (text : List Char) : Scan := ⟨.ofChars text, [], 0, [], true, [none]⟩

def inFlow (s : Scan) : Bool := 1 < s.keys.length

def indent (s : Scan) : Option Nat := s.indents.head?

def put (s : Scan) (token : Token) : Scan :=
  { s with tokens := token :: s.tokens, count := s.count + 1 }

/-- Puts a token before the one at a position. -/
def insert (s : Scan) (position : Nat) (token : Token) : Scan :=
  let behind := s.count - position
  { s with tokens := s.tokens.take behind ++ token :: s.tokens.drop behind, count := s.count + 1 }

def key (s : Scan) : Option KeyPlace := s.keys.head?.join

def setKey (s : Scan) (place : Option KeyPlace) : Scan :=
  { s with keys := place :: s.keys.tail }

/-- Gives up the pending key of this level; a required one may not be given up. -/
def dropKey (s : Scan) : Option Scan :=
  if s.key.any KeyPlace.required then none else some (s.setKey none)

/-- Remembers that the next token may be a key. -/
def saveKey (s : Scan) : Option Scan :=
  if s.keyAllowed then do
    let s ← s.dropKey
    let c := s.cursor
    some (s.setKey (some ⟨s.count, c.index, c.line, c.column,
      !s.inFlow && s.indent = some c.column⟩))
  else some s

/-- A key has to end on its line and within 1024 characters. -/
def isStale (s : Scan) (place : KeyPlace) : Bool :=
  place.line < s.cursor.line || place.index + 1024 < s.cursor.index

def dropStaleKeys (s : Scan) : Option Scan := do
  let keys ← s.keys.mapM fun entry =>
    match entry with
    | some place =>
      if s.isStale place then if place.required then none else some none else some (some place)
    | none => some none
  some { s with keys }

/-- Opens a block collection where the column lies right of the current indent. -/
def openBlock (s : Scan) (column : Nat) (position : Option Nat) (token : Token) : Scan :=
  if s.inFlow || s.indent.any (column ≤ ·) then s
  else
    let s := { s with indents := column :: s.indents }
    match position with
    | some position => s.insert position token
    | none => s.put token

/-- Closes the block collections that lie right of a column; all of them for none. -/
def closeBlocks (s : Scan) (column : Option Nat) : Scan :=
  if s.inFlow then s
  else
    let closed := s.indents.takeWhile fun n => column.all (· < n)
    { s with
      indents := s.indents.drop closed.length
      tokens := List.replicate closed.length .blockEnd ++ s.tokens
      count := s.count + closed.length }

def allowKey (s : Scan) (allowed : Bool) : Scan := { s with keyAllowed := allowed }

def goTo (s : Scan) (c : Cursor) : Scan := { s with cursor := c }

/-- Puts a token for the next `n` characters. -/
def mark (s : Scan) (token : Token) (n : Nat) : Scan := (s.goTo (s.cursor.advance n)).put token

/-- Skips blanks, comments and line breaks. Tabs are blanks only where no key may start. A line
break in block context allows a key. -/
def skipBlanks : Nat → Scan → Scan
  | 0, s => s
  | fuel + 1, s =>
    let c := s.cursor
    let c := if c.column = 0 && c.startsWith isByteOrderMark then c.advance 1 else c
    let tabs := s.inFlow || !s.keyAllowed
    let c := c.advanceWhile fun x => x = ' ' || (tabs && x = '\t')
    let c := c.skipComment
    match c.lineBreak? with
    | some (_, next) => skipBlanks fuel ((s.goTo next).allowKey (s.keyAllowed || !s.inFlow))
    | none => s.goTo c

def openFlow (s : Scan) (token : Token) : Option Scan := do
  let s ← s.saveKey
  some (({ s with keys := none :: s.keys }.allowKey true).mark token 1)

def closeFlow (s : Scan) (token : Token) : Option Scan := do
  let s ← s.dropKey
  let s := if s.inFlow then { s with keys := s.keys.tail } else s
  some ((s.allowKey false).mark token 1)

def flowEntry (s : Scan) : Option Scan := do
  let s ← s.dropKey
  some ((s.allowKey true).mark .flowEntry 1)

def blockEntry (s : Scan) : Option Scan := do
  if !s.inFlow && !s.keyAllowed then none
  let s ← (s.openBlock s.cursor.column none .blockSequence).dropKey
  some ((s.allowKey true).mark .blockEntry 1)

def explicitKey (s : Scan) : Option Scan := do
  if !s.inFlow && !s.keyAllowed then none
  let s ← (s.openBlock s.cursor.column none .blockMapping).dropKey
  some ((s.allowKey !s.inFlow).mark .key 1)

def mappingValue (s : Scan) : Option Scan :=
  match s.key with
  | some place =>
    let s := s.insert place.position .key
    let s := s.openBlock place.column (some place.position) .blockMapping
    some (((s.setKey none).allowKey false).mark .value 1)
  | none =>
    if !s.inFlow && !s.keyAllowed then none
    else
      let s := s.openBlock s.cursor.column none .blockMapping
      some ((s.allowKey !s.inFlow).mark .value 1)

/-- Puts what a reader found, as a token that may be a key. -/
def atom (s : Scan) (read : Cursor → Option (Token × Cursor)) : Option Scan := do
  let s ← s.saveKey
  let (token, c) ← read s.cursor
  some (((s.allowKey false).goTo c).put token)

def named (token : List Char → Token) (c : Cursor) : Option (Token × Cursor) :=
  (readAnchor c).map fun found => (token found.1, found.2)

def quotedScalar (quote : Char) (c : Cursor) : Option (Token × Cursor) :=
  (readQuoted quote c).map fun found => (.scalar .quoted found.1, found.2)

def blockScalar (s : Scan) (folded : Bool) : Option Scan := do
  let s ← s.dropKey
  let (text, c) ← readBlock folded s.indent s.cursor
  some (((s.allowKey true).goTo c).put (.scalar (if folded then .folded else .literal) text))

def plainScalar (s : Scan) : Option Scan := do
  let s ← s.saveKey
  let least := match s.indent with
    | some n => n + 1
    | none => 0
  let found ← readPlain s.inFlow least s.cursor
  some (((s.allowKey found.passedBreak).goTo found.after).put (.scalar .plain found.text))

/-- A directive or a document boundary, which ends every open block collection. -/
def atTopLevel (s : Scan) (next : Scan → Option Scan) : Option Scan := do
  let s ← (s.closeBlocks none).dropKey
  next (s.allowKey false)

def directive (s : Scan) : Option Scan :=
  s.atTopLevel fun s => (readDirective s.cursor).map fun found => (s.goTo found.2).put found.1

/-- Whether a plain scalar may start with this character. -/
def startsPlain (flow : Bool) (c : Char) (rest : List Char) : Bool :=
  if c = '-' then !rest.head?.any isSpaceOrTab
  else if c = '?' || c = ':' then !flow && !endsWord rest
  else !isSpaceOrBreak c && !("[]{},#&*!|>\'\"%@\x60".toList.contains c)

/-- Reads the token at the cursor. -/
def next (s : Scan) : Option Scan :=
  let c := s.cursor
  match boundary? c with
  | some .start => s.atTopLevel fun s => some (s.mark .documentStart 3)
  | some .stop => s.atTopLevel fun s => some (s.mark .documentEnd 3)
  | none =>
    match c.rest with
    | [] => none
    | x :: rest =>
      if x = '%' && c.column = 0 then s.directive
      else if x = '[' then s.openFlow .flowSequence
      else if x = '{' then s.openFlow .flowMapping
      else if x = ']' then s.closeFlow .flowSequenceEnd
      else if x = '}' then s.closeFlow .flowMappingEnd
      else if x = ',' then s.flowEntry
      else if x = '-' && endsWord rest then s.blockEntry
      else if x = '?' && (s.inFlow || endsWord rest) then s.explicitKey
      else if x = ':' && (s.inFlow || endsWord rest) then s.mappingValue
      else if x = '*' then s.atom (named .alias)
      else if x = '&' then s.atom (named .anchor)
      else if x = '!' then s.atom (readTag s.inFlow)
      else if x = '|' && !s.inFlow then s.blockScalar false
      else if x = '>' && !s.inFlow then s.blockScalar true
      else if x = '\'' || x = '"' then s.atom (quotedScalar x)
      else if startsPlain s.inFlow x rest then s.plainScalar
      else none

/-- The end of the text closes every block collection. -/
def finish (s : Scan) : Option Scan := (s.closeBlocks none).dropKey

/-- The tokens from here on, the last one first; a text that goes on with no token ends in
`invalid`. -/
def run : Nat → Scan → List Token
  | 0, s => .invalid :: s.tokens
  | fuel + 1, s =>
    let s := skipBlanks (s.cursor.rest.length + 1) s
    match s.dropStaleKeys with
    | none => .invalid :: s.tokens
    | some s =>
      let s := s.closeBlocks (some s.cursor.column)
      if s.cursor.atEnd then
        match s.finish with
        | some s => s.tokens
        | none => .invalid :: s.tokens
      else
        match s.next with
        | some s => run fuel s
        | none => .invalid :: s.tokens

end Scan

/-- The tokens of a text up to its end or to the first place where there is none. A text with a
character that no stream may hold has no tokens. -/
def tokens (text : List Char) : List Token :=
  let text := match text with
    | c :: rest => if isByteOrderMark c then rest else text
    | [] => text
  if text.all isStreamChar then (Scan.run (text.length + 1) (.ofChars text)).reverse else [.invalid]

end ClusterConfig.Yaml
