import ClusterConfig.Template.Value
import ClusterConfig.Text.Case
import ClusterConfig.Text.Search

/-!
# Changing text

Words, references for markup, and parts of a text.
-/

set_option autoImplicit false

namespace ClusterConfig.Template.Builtins

/-- Words start after blanks and the punctuation of ASCII. -/
def separatesWords (c : Char) : Bool :=
  Text.isBlank c || (c.toNat < 128 && '!' ≤ c && c ≤ '~' && !c.isAlphanum)

/-- The first letter of each word in upper case, the others in lower case. -/
def titled : (start : Bool) → List Char → List Char
  | _, [] => []
  | start, c :: rest =>
    if separatesWords c then c :: titled true rest
    else (if start then Text.upperChar c else Text.lowerChar c) ++ titled false rest

def capitalized : List Char → List Char
  | [] => []
  | c :: rest => Text.upperChar c ++ Text.lower rest

/-- A character that has a meaning in markup, as the reference that stands for it. -/
def escapedChar (c : Char) : String :=
  if c = '<' then "&lt;" else if c = '>' then "&gt;" else if c = '&' then "&amp;"
  else if c = '"' then "&quot;" else if c = '\'' then "&#x27;" else if c = '/' then "&#x2f;"
  else String.singleton c

/-- Joins texts; the separator stands only where something was written before. -/
def joined (separator : String) (items : List String) : String :=
  items.foldl (fun text item => (if text.isEmpty then text else text ++ separator) ++ item) ""

/-- The parts of a text between blanks. -/
def words (text : List Char) : List (List Char) :=
  let runs := text.splitBy fun a b => !Text.isBlank a && !Text.isBlank b
  runs.filter fun word => !word.any Text.isBlank

/-- The parts of a text between separators, the last ones together after `most` cuts. -/
def splitParts (separator : List Char) : Nat → List Char → List (List Char)
  | 0, text => [text]
  | most + 1, text =>
    match Text.splitAt? separator text with
    | none => [text]
    | some (before, after) => before :: splitParts separator most after

def split (text : String) (separator : Option String) (most : Option Int) : Value :=
  let chars := text.toList
  let parts :=
    match separator with
    | none => words chars
    | some separator =>
      let cuts := match most with
        | some n => if 0 ≤ n then n.toNat else chars.length + 1
        | none => chars.length + 1
      if separator.isEmpty then [] :: chars.map (fun c => [c]) ++ [[]]
      else splitParts separator.toList cuts chars
  .list (parts.map .ofChars)

/-- Puts blanks in front of the lines after the first. -/
def indented (text : String) (width : Nat) (first blank : Bool) : String :=
  let pad := String.ofList (List.replicate width ' ')
  let lines := (Text.splitAll '\n' text.toList).map String.ofList
  let put := fun (line : String) => if line.isEmpty && !blank then line else pad ++ line
  match lines with
  | [] => ""
  | line :: rest => String.intercalate "\n" ((if first then put line else line) :: rest.map put)

end ClusterConfig.Template.Builtins
