import ClusterConfig.Yaml.Value
import ClusterConfig.Yaml.Writing
import ClusterConfig.Text.Blank
import ClusterConfig.Decimal.Shortest

/-!
# Writing values as YAML

Block style: entries of a mapping are indented by two blanks, items of a sequence stand at the indent
of their mapping. A short key is written in front of its colon, any other after a question mark.
-/

set_option autoImplicit false

namespace ClusterConfig.Yaml

/-- What a node is written after. -/
inductive Place where
  /-- The start of a document. -/
  | start
  /-- The dash of an item. -/
  | item
  /-- The question mark or the colon of an entry written on lines of its own. -/
  | explicit
  /-- The colon after a key on the same line. -/
  | value
  deriving DecidableEq

def floatText (x : Binary64) : String :=
  if x.isNaN then ".nan"
  else if x.isInfinite then if x.isNegative then "-.inf" else ".inf"
  else x.text .unsigned

/-- A local tag as it is written: other bytes than those of an address are escaped. -/
def tagText (tag : String) : List Char :=
  let isTagChar (c : Char) : Bool := (isUriChar c && c ≠ '!') || isAddressChar c
  '!' :: (Value.bareTag tag).toList.flatMap fun c =>
    if isTagChar c then [c]
    else (String.singleton c).toUTF8.toList.flatMap fun byte => '%' :: hexDigits 2 byte.toNat

/-- A scalar or an empty collection, which fits on its line; `none` for any other value. -/
def inlineText? (key : Bool) (indent : Nat) : Value → Option (List Char)
  | .null => some "null".toList
  | .bool true => some "true".toList
  | .bool false => some "false".toList
  | .int n => some (toString n).toList
  | .float x => some (floatText x).toList
  | .str s => some (writeString key indent s)
  | .seq [] => some ['[', ']']
  | .map [] => some ['{', '}']
  | _ => none

/-- The text a key has before quoting, on which it depends whether it is short. -/
def keyLength? : Value → Option Nat
  | .tagged tag value => (keyLength? value).map (· + 1 + (Value.bareTag tag).utf8ByteSize)
  | .str s => if s.toList.any isLineBreak then none else some s.utf8ByteSize
  | .seq [] => some 0
  | .map [] => some 0
  | value => (inlineText? true 0 value).map (·.length)

/-- A key that is written in front of its colon: one line of at most 128 bytes. -/
def isShortKey (key : Value) : Bool := (keyLength? key).any (· ≤ 128)

def shortKeyText : Value → List Char
  | .tagged tag value => tagText tag ++ ' ' :: shortKeyText value
  | value => (inlineText? true 0 value).getD []

/-- Ends the line unless it has ended. -/
def endLine (text : List Char) : List Char :=
  if text.getLast?.any isLineBreak then text else text ++ ['\n']

/-- Entries on lines of their own, all but the first indented here. -/
def joinEntries (indent : Nat) : List (List Char) → List Char
  | [] => []
  | [entry] => entry
  | entry :: rest => endLine entry ++ (spaces indent ++ joinEntries indent rest)

/-- The indent of what a collection holds, inside one of the given indent. -/
def innerIndent : Option Nat → Nat
  | none => 0
  | some n => n + 2

def lead (place : Place) : List Char := if place = .start then [] else [' ']

mutual

/-- A value after its place; `outer` is the indent of the collection it stands in, and `broken` tells
that a collection has to begin on a line of its own. -/
def valueText (outer : Option Nat) (place : Place) (broken : Bool) : Value → List Char
  | .tagged tag value =>
    lead place ++
      (tagText tag ++ valueText outer (if place = .start then .value else place) true value)
  | .seq (item :: rest) =>
    let aligned := broken && (place = .value || place = .explicit) && outer.isSome
    let indent := if aligned then outer.getD 0 else innerIndent outer
    (if broken then '\n' :: spaces indent else lead place) ++
      joinEntries indent (itemTexts indent (item :: rest))
  | .map (entry :: rest) =>
    let indent := innerIndent outer
    (if broken then '\n' :: spaces indent else lead place) ++
      joinEntries indent (entryTexts indent (entry :: rest))
  | value =>
    lead place ++ (inlineText? false (match outer with | none => 2 | some n => n + 2) value).getD []

def itemTexts (indent : Nat) : List Value → List (List Char)
  | [] => []
  | item :: rest => ('-' :: valueText (some indent) .item false item) :: itemTexts indent rest

def entryTexts (indent : Nat) : List (Value × Value) → List (List Char)
  | [] => []
  | (key, value) :: rest =>
    (if isShortKey key then shortKeyText key ++ ':' :: valueText (some indent) .value true value
    else
      endLine ('?' :: valueText (some indent) .explicit false key) ++
        (spaces indent ++ ':' :: valueText (some indent) .explicit false value)) ::
      entryTexts indent rest

end

/-- A document, without the mark in front of it. -/
def writeValue (value : Value) : String :=
  String.ofList (endLine (valueText none .start false value))

def writeJson (document : Json) : String := writeValue (.ofJson document)

def documentMark : String := "---\n"

/-- A document with the mark in front of it. -/
def writeMarked (document : Json) : String := documentMark ++ writeJson document

/-- A stream of documents: each after the first has the mark in front of it. -/
def writeDocuments : List Json → String
  | [] => ""
  | document :: rest => writeJson document ++ String.join (rest.map writeMarked)

end ClusterConfig.Yaml
