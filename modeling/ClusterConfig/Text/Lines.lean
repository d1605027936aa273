import ClusterConfig.Text.Blank

/-!
# Lines

`rawLines` cuts after every newline and loses nothing. `lines` are those without their line ends,
a carriage return before the newline being part of the line end.
-/

set_option autoImplicit false

namespace ClusterConfig.Text

/-- The lines with their newlines; their concatenation is the text. -/
def rawLines : List Char → List (List Char)
  | [] => []
  | c :: rest =>
    if c = '\n' then [c] :: rawLines rest
    else
      match rawLines rest with
      | [] => [[c]]
      | line :: lines => (c :: line) :: lines

theorem flatten_rawLines (s : List Char) : (rawLines s).flatten = s := by
  induction s with
  | nil => rfl
  | cons c rest ih =>
    by_cases h : c = '\n'
    · simp [rawLines, h, ih]
    · cases hr : rawLines rest with
      | nil => simp [rawLines, h, hr] at ih ⊢; exact ih
      | cons line lines => simp [rawLines, h, hr] at ih ⊢; exact ih

/-- A line without its newline and a carriage return before that. -/
def withoutLineEnd (line : List Char) : List Char :=
  match beforeEnd? ['\n'] line with
  | none => line
  | some line => (beforeEnd? ['\r'] line).getD line

def lines (s : List Char) : List (List Char) := (rawLines s).map withoutLineEnd

def newlineCount (s : List Char) : Nat := s.count '\n'

end ClusterConfig.Text
