import ClusterConfig.Text.Blank
import ClusterConfig.Text.Digits
import ClusterConfig.Text.Quoted

/-!
# Semantic versions

Three numbers with dots between them, then optionally a hyphen and pre-release identifiers and a
plus sign and build identifiers. Numbers have no leading zeros; build identifiers may.
-/

set_option autoImplicit false

namespace ClusterConfig

/-- A semantic version. -/
structure Version where
  major : Nat
  minor : Nat
  patch : Nat
  pre : String
  build : String
deriving DecidableEq

namespace Version

def hasLeadingZero (digits : List Char) : Bool := 1 < digits.length && digits.head? = some '0'

def readNumber (s : List Char) : Option (Nat × List Char) := do
  let digits := s.takeWhile Char.isDigit
  if hasLeadingZero digits then none
  let value ← Text.decimal? Text.wordLimit digits
  some (value, s.dropWhile Char.isDigit)

def dot? : List Char → Option (List Char)
  | '.' :: rest => some rest
  | _ => none

def isIdentifierChar (c : Char) : Bool := c.isAlphanum || c = '-'

/-- Whether a part between dots is an identifier; a pre-release number has no leading zero. -/
def isIdentifier (pre : Bool) (part : List Char) : Bool :=
  !part.isEmpty && part.all isIdentifierChar &&
    !(pre && part.all Char.isDigit && hasLeadingZero part)

/-- The identifiers that follow a mark, if the mark is there, and what follows them. -/
def readIdentifiers (mark : Char) (pre : Bool) (s : List Char) : Option (String × List Char) :=
  match s with
  | [] => some ("", [])
  | c :: rest =>
    if c = mark then
      let body := rest.takeWhile fun c => isIdentifierChar c || c = '.'
      if (Text.splitAll '.' body).all (isIdentifier pre) then
        some (String.ofList body, rest.drop body.length)
      else none
    else some ("", s)

/-- The version that a text spells. -/
def parse? (text : List Char) : Option Version := do
  let (major, s) ← readNumber text
  let (minor, s) ← readNumber (← dot? s)
  let (patch, s) ← readNumber (← dot? s)
  let (pre, s) ← readIdentifiers '-' true s
  let (build, s) ← readIdentifiers '+' false s
  if s.isEmpty then some ⟨major, minor, patch, pre, build⟩ else none

/-- A text without surrounding blanks and one leading `v`. -/
def bare (text : String) : List Char :=
  let s := Text.trimChars text.toList
  (Text.afterStart? ['v'] s).getD s

/-- The version that a text spells, with or without `v` in front. -/
def ofText? (text : String) : Option Version := parse? (bare text)

def notAVersion (text : String) : String :=
  Text.quoted text ++ " is not a version of the form vMAJOR.MINOR.PATCH"

def text (v : Version) : String :=
  toString v.major ++ "." ++ toString v.minor ++ "." ++ toString v.patch ++
    (if v.pre.isEmpty then "" else "-" ++ v.pre) ++
    (if v.build.isEmpty then "" else "+" ++ v.build)

end Version

end ClusterConfig
