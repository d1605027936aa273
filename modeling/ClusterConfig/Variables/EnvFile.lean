import ClusterConfig.Files.Tree
import ClusterConfig.Variables.Expansion

/-!
# Files of variables

Lines `NAME=value`, optionally after `export `. A value in single quotes is taken as it is, in
double quotes a backslash escapes a quote, a backslash or stands with `n` for a newline, and any
other value ends before a blank and `#`. Variables that are set already keep their values.
-/

set_option autoImplicit false

namespace ClusterConfig.Variables

/-- The text of a value in double quotes. -/
def unescape : List Char → List Char
  | [] => []
  | '\\' :: 'n' :: rest => '\n' :: unescape rest
  | '\\' :: '"' :: rest => '"' :: unescape rest
  | '\\' :: '\\' :: rest => '\\' :: unescape rest
  | c :: rest => c :: unescape rest

/-- What stands between two quotes, if the value starts and ends with one each. -/
def insideQuotes? (quote : Char) (value : List Char) : Option (List Char) :=
  (Text.afterStart? [quote] value).bind (Text.beforeEnd? [quote])

/-- The part before a blank and `#`. -/
def beforeRemark? : List Char → Option (List Char)
  | [] => none
  | c :: rest =>
    if c = ' ' && rest.head? = some '#' then some []
    else (beforeRemark? rest).map (c :: ·)

/-- The value that is written as `value`. -/
def readValue (value : List Char) : List Char :=
  match insideQuotes? '\'' value with
  | some inner => inner
  | none =>
    match insideQuotes? '"' value with
    | some inner => unescape inner
    | none =>
      match beforeRemark? value with
      | some kept => Text.trimEndChars kept
      | none => value

/-- The variable of a line, if it has one; the inner `none` is a line that is not well formed. -/
def readLine (line : List Char) : Option (Option (String × String)) :=
  let line := Text.trimChars line
  if line.isEmpty || line.head? = some '#' then none
  else
    let line := ((Text.afterStart? "export ".toList line).map Text.trimStartChars).getD line
    match Text.splitFirst? '=' line with
    | none => some none
    | some (name, value) =>
      let name := Text.trimChars name
      if isName name then
        some (some (String.ofList name, String.ofList (readValue (Text.trimChars value))))
      else some none

/-- The variables of lines from the given line number on, or the number of a bad line. -/
def readLines (number : Nat) : List (List Char) → Except Nat (List (String × String))
  | [] => .ok []
  | line :: rest =>
    match readLine line with
    | none => readLines (number + 1) rest
    | some none => .error number
    | some (some entry) => (readLines (number + 1) rest).map (entry :: ·)

/-- The variables of a file in their order, or the number of its first bad line. -/
def parseEnvFile (text : String) : Except Nat (List (String × String)) :=
  readLines 1 (Text.lines text.toList)

/-- Sets the variables that are not set yet and counts them. -/
def addAll (vars : Bindings) : List (String × String) → Bindings × Nat
  | [] => (vars, 0)
  | (name, value) :: rest =>
    let (vars, added) := vars.setIfAbsent name value
    let (vars, count) := addAll vars rest
    (vars, if added then count + 1 else count)

/-- Why a file of variables cannot be loaded. -/
inductive EnvFileError where
  | read (path : String) (reason : FileError)
  | invalidLine (path : String) (line : Nat)
deriving DecidableEq

def EnvFileError.message : EnvFileError → String
  | .read path _ => "failed to read env file " ++ Text.quotedPath path
  | .invalidLine path line =>
    "invalid line " ++ toString line ++ " in env file " ++ Text.quotedPath path ++
      ": expected KEY=VALUE"

/-- Adds the variables of a file and gives the number of those that were not set before. -/
def loadEnvFile (vars : Bindings) (files : FileTree) (path : String) :
    Except EnvFileError (Bindings × Nat) := do
  let text ← (files.readText path).mapError (.read path)
  let entries ← (parseEnvFile text).mapError (.invalidLine path)
  .ok (addAll vars entries)

end ClusterConfig.Variables
