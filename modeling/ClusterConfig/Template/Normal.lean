import ClusterConfig.Text.Search

/-!
# Field dots

A field may be written with a dot in front of its name. Between double braces the dot is dropped,
outside quotes and where it does not follow something that has attributes.
-/

set_option autoImplicit false

namespace ClusterConfig.Template

def outputOpening : List Char := ['{', '{']

def outputClosing : List Char := ['}', '}']

def tagOpening : List Char := ['{', '%']

def tagClosing : List Char := ['%', '}']

/-- A dot after this character, or at the start, belongs to the name of a field. -/
def opensField (previous : Option Char) : Bool :=
  match previous with
  | none => true
  | some c => Text.isBlank c || c = '(' || c = '|' || c = ','

def isLetter (c : Char) : Bool := c.isAlpha

/-- Drops the dots of fields; `quote` is the quote that is open. -/
def stripFieldDots : (quote previous : Option Char) → List Char → List Char
  | _, _, [] => []
  | some q, _, c :: rest => c :: stripFieldDots (if c = q then none else some q) (some c) rest
  | none, previous, c :: rest =>
    if c = '"' || c = '\'' then c :: stripFieldDots (some c) (some c) rest
    else if c = '.' && opensField previous && rest.head?.any isLetter then
      stripFieldDots none (some c) rest
    else c :: stripFieldDots none (some c) rest

/-- Drops the dots of fields in every closed span. -/
def normalizeWith : Nat → List Char → List Char
  | 0, text => text
  | fuel + 1, text =>
    match Text.splitAt? outputOpening text with
    | none => text
    | some (before, rest) =>
      before ++ (outputOpening ++
        match Text.splitAt? outputClosing rest with
        | none => rest
        | some (inside, after) =>
          stripFieldDots none none inside ++ (outputClosing ++ normalizeWith fuel after))

def normalize (text : List Char) : List Char := normalizeWith (text.length + 1) text

/-- Whether a text holds expressions at all. -/
def isTemplate (text : String) : Bool :=
  Text.occursIn outputOpening text.toList || Text.occursIn tagOpening text.toList

end ClusterConfig.Template
