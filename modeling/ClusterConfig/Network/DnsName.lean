import ClusterConfig.Text.Blank
import ClusterConfig.Text.Quoted

/-!
# Names in the domain name system

A name is a sequence of labels with dots between them. A label consists of letters, digits and
hyphens and starts and ends with a letter or digit. A check gives every rule that is broken.
-/

set_option autoImplicit false

namespace ClusterConfig.DnsName

def isLowerAlnum (c : Char) : Bool := c.isLower || c.isDigit

/-- Where a scan of a name is. -/
inductive Place where
  | start
  | inside
  | hyphen
  | afterDot
deriving DecidableEq

/-- The place after a character, if the character may stand there. -/
def step (alnum : Char → Bool) (place : Place) (c : Char) : Option Place :=
  if alnum c then some .inside
  else
    match place with
    | .inside => if c = '-' then some .hyphen else if c = '.' then some .afterDot else none
    | .hyphen => if c = '-' then some .hyphen else none
    | .start => none
    | .afterDot => none

def scan (alnum : Char → Bool) : Place → List Char → Option Place
  | place, [] => some place
  | place, c :: rest => (step alnum place c).bind fun place => scan alnum place rest

/-- Whether a text is a name; a dot may follow the last label if `dotted`. -/
def isName (alnum : Char → Bool) (dotted : Bool) (s : List Char) : Bool :=
  match scan alnum .start s with
  | some .inside => true
  | some .afterDot => dotted
  | _ => false

/-- The format that a name is checked against, as it is shown in messages. -/
structure Format where
  alnum : Char → Bool
  dotted : Bool
  pattern : String
  rule : String

/-- Lower case names, such as host names. -/
def subdomain : Format :=
  ⟨isLowerAlnum, false, "[a-z0-9]([-a-z0-9]*[a-z0-9])?(\\.[a-z0-9]([-a-z0-9]*[a-z0-9])?)*",
    "must consist of lower case alphanumeric characters, '-' or '.', and must start and end with " ++
      "an alphanumeric character"⟩

/-- Names in any case that may end with a dot. -/
def domain : Format :=
  ⟨Char.isAlphanum, true,
    "[a-zA-Z0-9]([-a-zA-Z0-9]*[a-zA-Z0-9])?(\\.[a-zA-Z0-9]([-a-zA-Z0-9]*[a-zA-Z0-9])?)*\\.?",
    "must consist of alphanumeric characters, '-' or '.', and must start with an alphanumeric " ++
      "character and end with an alphanumeric character or '.'"⟩

/-- A rule that a name breaks. -/
inductive Problem where
  | empty
  | tooLong (length most : Nat)
  | mismatch (rule pattern : String)
  | labelTooLong (label : String)
deriving DecidableEq

namespace Problem

def message : Problem → String
  | .empty => "must not be empty"
  | .tooLong length most =>
    "is " ++ toString length ++ " bytes long but must be no more than " ++ toString most
  | .mismatch rule pattern =>
    rule ++ " (regex used for validation is " ++ Text.quoted pattern ++ ")"
  | .labelTooLong label => Text.quoted label ++ " is longer than 63 characters"

end Problem

def messages (problems : List Problem) : String :=
  ", ".intercalate (problems.map Problem.message)

def longestName : Nat := 253

def longestLabel : Nat := 63

def lengthProblems (s : List Char) : List Problem :=
  if s.isEmpty then [.empty]
  else if longestName < Text.byteCount s then [.tooLong (Text.byteCount s) longestName]
  else []

def withoutLastDots (s : List Char) : List Char :=
  (s.reverse.dropWhile fun c => c = '.').reverse

def labels (s : List Char) : List (List Char) := Text.splitAll '.' s

def labelProblems (s : List Char) : List Problem :=
  match (labels (withoutLastDots s)).find? fun label => longestLabel < Text.byteCount label with
  | some label => [.labelTooLong (String.ofList label)]
  | none => []

/-- Every rule that a text breaks. -/
def problems (format : Format) (text : String) : List Problem :=
  let s := text.toList
  lengthProblems s ++
    (if isName format.alnum format.dotted s then [] else [.mismatch format.rule format.pattern]) ++
    labelProblems s

end ClusterConfig.DnsName
