import ClusterConfig.Text.Blank

/-!
# Finding a text in another

The first place where a text occurs, and what stands before and after it.
-/

set_option autoImplicit false

namespace ClusterConfig.Text

/-- What stands before and after the first occurrence of a text. -/
def splitAt? (mark : List Char) : List Char → Option (List Char × List Char)
  | [] => if mark.isEmpty then some ([], []) else none
  | c :: rest =>
    match afterStart? mark (c :: rest) with
    | some after => some ([], after)
    | none => (splitAt? mark rest).map fun found => (c :: found.1, found.2)

def occursIn (mark text : List Char) : Bool := (splitAt? mark text).isSome

/-- Replaces the occurrences of a text that is not empty, from left to right. -/
def replaceAllWith (mark new : List Char) : Nat → List Char → List Char
  | 0, text => text
  | fuel + 1, text =>
    match splitAt? mark text with
    | none => text
    | some (before, after) => before ++ (new ++ replaceAllWith mark new fuel after)

/-- Replaces a text everywhere; an empty one stands before every character and at the end. -/
def replaceAll (mark new text : List Char) : List Char :=
  if mark.isEmpty then new ++ text.flatMap fun c => c :: new
  else replaceAllWith mark new (text.length + 1) text

/-- The parts between the occurrences of a text that is not empty. -/
def splitOnAll (mark : List Char) : Nat → List Char → List (List Char)
  | 0, text => [text]
  | fuel + 1, text =>
    match splitAt? mark text with
    | none => [text]
    | some (before, after) => before :: splitOnAll mark fuel after

end ClusterConfig.Text
