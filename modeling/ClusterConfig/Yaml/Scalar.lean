import ClusterConfig.Yaml.Cursor
import ClusterConfig.Json.Reader

/-!
# The text of a scalar

Plain, quoted and block scalars, each read from the cursor to the place after it. Text that runs over
several lines is folded: one line break reads as a space, and of several all but the first are kept.
-/

set_option autoImplicit false

namespace ClusterConfig.Yaml

/-- How a scalar is written. -/
inductive Style where
  | plain
  | quoted
  | literal
  | folded
  deriving DecidableEq

/-- The blanks and line breaks between two runs of a scalar: the blanks before the first break, and
the breaks. -/
structure Gap where
  blanks : List Char
  breaks : List Char

namespace Gap

def empty : Gap := ⟨[], []⟩

/-- What a gap reads as. -/
def folded (gap : Gap) : List Char :=
  match gap.breaks with
  | [] => gap.blanks
  | ['\n'] => [' ']
  | '\n' :: more => more
  | breaks => breaks

/-- Reads a gap; fails at a tab left of the indent. -/
def read (indent : Nat) : Nat → Cursor → Option (Gap × Cursor)
  | 0, c => some (empty, c)
  | fuel + 1, c =>
    match c.rest with
    | [] => some (empty, c)
    | x :: _ =>
      if isSpaceOrTab x then do
        let (gap, rest) ← read indent fuel (c.advance 1)
        some ({ gap with blanks := x :: gap.blanks }, rest)
      else lines fuel c
where
  lines : Nat → Cursor → Option (Gap × Cursor)
  | 0, c => some (empty, c)
  | fuel + 1, c =>
    match c.lineBreak? with
    | none => some (empty, c)
    | some (b, next) => do
      let start := next.rest.takeWhile isSpaceOrTab
      if ((start.take (indent - next.column)).contains '\t') then none
      let (gap, rest) ← lines fuel (next.advance start.length)
      some ({ gap with breaks := b :: gap.breaks }, rest)

end Gap

/-! ## Plain scalars -/

def isFlowIndicator (c : Char) : Bool := c = ',' || c = '[' || c = ']' || c = '{' || c = '}'

/-- The characters of a plain scalar up to a blank, a line break or its end. A colon inside a flow
collection may not stand before an indicator. -/
def plainRun (flow : Bool) : List Char → Option (List Char)
  | [] => some []
  | c :: rest =>
    if isSpaceOrBreak c then some []
    else if flow && c = ':' && rest.head?.any (fun x => isFlowIndicator x || x = '?') then none
    else if (c = ':' && endsWord rest) || (flow && isFlowIndicator c) then some []
    else (plainRun flow rest).map (c :: ·)

structure PlainScalar where
  text : List Char
  /-- A line break was passed after the last character. -/
  passedBreak : Bool
  after : Cursor

/-- The rest of a plain scalar after a gap. -/
def plainFrom (flow : Bool) (indent : Nat) : Nat → Gap → Cursor → Option PlainScalar
  | 0, _, _ => none
  | fuel + 1, gap, c =>
    let ended : PlainScalar := ⟨[], !gap.breaks.isEmpty, c⟩
    if (boundary? c).isSome || c.rest.head? = some '#' then some ended
    else do
      let run ← plainRun flow c.rest
      if run.isEmpty then return ended
      let c := c.advance run.length
      let text := gap.folded ++ run
      if !c.startsWith isSpaceOrBreak then return ⟨text, false, c⟩
      let (gap, c) ← Gap.read indent (c.rest.length + 1) c
      if !flow && c.column < indent then
        return ⟨text, !gap.breaks.isEmpty, c⟩
      let more ← plainFrom flow indent fuel gap c
      return { more with text := text ++ more.text }

def readPlain (flow : Bool) (indent : Nat) (c : Cursor) : Option PlainScalar :=
  plainFrom flow indent (c.rest.length + 1) .empty c

/-! ## Quoted scalars -/

/-- Part of a quoted scalar within one line: its characters, how many were read, and whether it ends
in an escaped line break. -/
structure QuotedRun where
  text : List Char
  length : Nat
  escapedBreak : Bool

def QuotedRun.cons (run : QuotedRun) (c : Char) (length : Nat) : QuotedRun :=
  { run with text := c :: run.text, length := run.length + length }

def singleRun : List Char → QuotedRun
  | '\'' :: '\'' :: rest => (singleRun rest).cons '\'' 2
  | c :: rest =>
    if c = '\'' || isSpaceOrBreak c then ⟨[], 0, false⟩ else (singleRun rest).cons c 1
  | [] => ⟨[], 0, false⟩

/-- What a letter after a backslash stands for. -/
def escaped? (c : Char) : Option Char :=
  match c with
  | '0' => some '\x00'
  | 'a' => some '\x07'
  | 'b' => some '\x08'
  | 't' => some '\t'
  | '\t' => some '\t'
  | 'n' => some '\n'
  | 'v' => some '\x0b'
  | 'f' => some '\x0c'
  | 'r' => some '\r'
  | 'e' => some '\x1b'
  | ' ' => some ' '
  | '"' => some '"'
  | '/' => some '/'
  | '\\' => some '\\'
  | 'N' => some '\u0085'
  | '_' => some '\u00a0'
  | 'L' => some '\u2028'
  | 'P' => some '\u2029'
  | _ => none

/-- How many digits follow a letter that introduces a character by its number. -/
def numberWidth? (c : Char) : Option Nat :=
  match c with
  | 'x' => some 2
  | 'u' => some 4
  | 'U' => some 8
  | _ => none

/-- The character with a hexadecimal number of `width` digits. -/
def numbered? (width : Nat) (digits : List Char) : Option Char := do
  let values ← (digits.take width).mapM Json.hexValue?
  let n := values.foldl (fun acc v => acc * 16 + v) 0
  if values.length = width && n.isValidChar then some (Char.ofNat n) else none

def doubleRun : Nat → List Char → Option QuotedRun
  | 0, _ => none
  | _, [] => some ⟨[], 0, false⟩
  | fuel + 1, '\\' :: rest =>
    match rest with
    | [] => none
    | c :: after =>
      if isLineBreak c then some ⟨[], 1, true⟩
      else
        match numberWidth? c with
        | some width => do
          let x ← numbered? width after
          let run ← doubleRun fuel (after.drop width)
          some (run.cons x (width + 2))
        | none => do
          let x ← escaped? c
          let run ← doubleRun fuel after
          some (run.cons x 2)
  | fuel + 1, c :: rest =>
    if c = '"' || isSpaceOrBreak c then some ⟨[], 0, false⟩
    else (doubleRun fuel rest).map fun run => run.cons c 1

/-- The text of a quoted scalar up to its closing quote, from after its opening one. -/
def quotedFrom (quote : Char) : Nat → Cursor → Option (List Char × Cursor)
  | 0, _ => none
  | fuel + 1, c =>
    if (boundary? c).isSome || c.atEnd then none
    else do
      let run ← if quote = '"' then doubleRun (c.rest.length + 1) c.rest else some (singleRun c.rest)
      let c := c.advance run.length
      let c := if run.escapedBreak then c.skipBreak else c
      if c.rest.head? = some quote then return (run.text, c.advance 1)
      let (gap, c) ← Gap.read 0 (c.rest.length + 1) c
      let between := if run.escapedBreak then gap.breaks else gap.folded
      let (more, c) ← quotedFrom quote fuel c
      return (run.text ++ (between ++ more), c)

/-- A quoted scalar, from its opening quote. -/
def readQuoted (quote : Char) (c : Cursor) : Option (List Char × Cursor) :=
  quotedFrom quote (c.rest.length + 1) (c.advance 1)

/-! ## Block scalars -/

/-- What happens to the line breaks at the end of a block scalar. -/
inductive Chomping where
  | strip
  | clip
  | keep

structure BlockHeader where
  chomping : Chomping
  /-- The indent relative to the parent, if it is given. -/
  indent : Option Nat

def chomping? : List Char → Option Chomping
  | '+' :: _ => some .keep
  | '-' :: _ => some .strip
  | _ => none

/-- An explicit indent; it may not be zero. -/
def blockIndent? : List Char → Option (Option Nat)
  | c :: _ =>
    if c = '0' then none
    else some (if c.isDigit then some (c.toNat - '0'.toNat) else none)
  | [] => some none

/-- The header after its indicator, its two parts in either order. -/
def blockHeader? (c : Cursor) : Option (BlockHeader × Cursor) := do
  match chomping? c.rest with
  | some chomping =>
    let c := c.advance 1
    let indent ← blockIndent? c.rest
    return (⟨chomping, indent⟩, c.advance (if indent.isSome then 1 else 0))
  | none =>
    let indent ← blockIndent? c.rest
    if indent.isNone then return (⟨.clip, none⟩, c)
    let c := c.advance 1
    match chomping? c.rest with
    | some chomping => return (⟨chomping, indent⟩, c.advance 1)
    | none => return (⟨.clip, indent⟩, c)

/-- Line breaks before a line of a block scalar, and the widest indent seen among them. -/
structure BlockGap where
  breaks : List Char
  widest : Nat
  after : Cursor

/-- Skips the indent of the lines, all spaces while the indent is not known. -/
def blockGap (indent : Option Nat) : Nat → Cursor → Option BlockGap
  | 0, _ => none
  | fuel + 1, c =>
    let spaces := (c.rest.takeWhile (· = ' ')).length
    let c := c.advance (match indent with
      | some n => min spaces (n - c.column)
      | none => spaces)
    if c.rest.head? = some '\t' && indent.all (c.column < ·) then none
    else
      match c.lineBreak? with
      | none => some ⟨[], c.column, c⟩
      | some (b, next) => do
        let gap ← blockGap indent fuel next
        some ⟨b :: gap.breaks, max c.column gap.widest, gap.after⟩

/-- The lines of a block scalar: `pending` is the break before the line and `gap` the empty lines
after it; a folded scalar turns a single break between two lines that do not start with a blank
into a space. Returns the text and the pending breaks at its end. -/
def blockLines (folded : Bool) (indent : Nat) :
    Nat → (pending : List Char) → (blankBefore : Bool) → BlockGap →
      Option (List Char × List Char × BlockGap)
  | 0, _, _, _ => none
  | fuel + 1, pending, blankBefore, gap =>
    let c := gap.after
    if c.column ≠ indent || c.atEnd then some ([], pending, gap)
    else do
      let blank := c.atSpaceOrTab
      let joins := folded && pending = ['\n'] && !blankBefore && !blank
      let lead := (if joins then if gap.breaks.isEmpty then [' '] else [] else pending) ++ gap.breaks
      let line := c.rest.takeWhile fun x => !isLineBreak x
      let c := c.advance line.length
      let (pending, c) := match c.lineBreak? with
        | some (b, next) => ([b], next)
        | none => ([], c)
      let gap ← blockGap (some indent) (c.rest.length + 1) c
      let (more, ending) ← blockLines folded indent fuel pending blank gap
      some (lead ++ (line ++ more), ending)

/-- A block scalar from its indicator; `parent` is the column of the collection it stands in, if it
stands in one. -/
def readBlock (folded : Bool) (parent : Option Nat) (c : Cursor) : Option (List Char × Cursor) := do
  let (header, c) ← blockHeader? (c.advance 1)
  let c ← c.restOfLine?
  let least := match parent with
    | some n => n + 1
    | none => 0
  let known := header.indent.map fun n => (match parent with | some m => m | none => 0) + n
  let gap ← blockGap known (c.rest.length + 1) c
  let indent := match known with
    | some n => n
    | none => max (max gap.widest least) 1
  let (text, pending, gap) ← blockLines folded indent (c.rest.length + 1) [] false gap
  return (text ++ (match header.chomping with
    | .strip => []
    | .clip => pending
    | .keep => pending ++ gap.breaks), gap.after)

end ClusterConfig.Yaml
