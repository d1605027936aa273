import ClusterConfig.Members
import ClusterConfig.Text.Blank
import ClusterConfig.Variables.Bindings

/-!
# Options

A command line is a list of words. An option is written `--name value` or `--name=value`, and with
its letter `-n value`, `-nvalue` or `-n=value`; letters without values may share a word. A value in
a word of its own starts with no dash, unless it is a single dash. All words after `--` are taken
as they are. An option that is not given takes its value from a variable, if that is set.
-/

set_option autoImplicit false

namespace ClusterConfig.CommandLine

/-- Why words are not read to their end. -/
inductive Stop where
  | help
  | version
  | misuse
deriving DecidableEq

inductive Arity where
  /-- Has no value and is given at most once. -/
  | flag
  /-- Has a value and is given at most once. -/
  | single
  /-- Has values between commas and is given any number of times. -/
  | several
  /-- Ends the reading. -/
  | ends (stop : Stop)
deriving DecidableEq

structure OptionRule where
  name : String
  letter : Option Char
  arity : Arity
  /-- The variable that stands in for the option. -/
  variableName : Option String
  /-- The value where neither the option nor its variable is there. -/
  fallback : String
  accepts : String → Bool

inductive OperandRule where
  /-- The first operand is the name of a command, and all words after it are its own. -/
  | command
  /-- The operands there may be, by the texts that they accept. -/
  | listed (accepts : List (String → Bool))

structure Grammar where
  options : List OptionRule
  operands : OperandRule
  /-- Whether words may follow after `--`. -/
  takesFurther : Bool

/-- What the words of a command line give. -/
structure Given where
  values : Members (List String) := []
  operands : List String := []
  /-- The words of a command, or those after `--`. -/
  further : List String := []

/-! ## Words -/

/-- A word that gives options. -/
inductive OptionWord where
  | long (name : String) (value : Option String)
  | letters (letters : List Char)
deriving DecidableEq

inductive Word where
  | plain (text : String)
  | separator
  | options (word : OptionWord)
deriving DecidableEq

def Word.read (word : String) : Word :=
  match word.toList with
  | ['-', '-'] => .separator
  | '-' :: '-' :: rest =>
    match Text.splitFirst? '=' rest with
    | some (name, value) => .options (.long (String.ofList name) (some (String.ofList value)))
    | none => .options (.long (String.ofList rest) none)
  | '-' :: c :: rest => .options (.letters (c :: rest))
  | _ => .plain word

/-! ## Values -/

namespace Given

def isGiven (given : Given) (rule : OptionRule) : Bool := given.values.contains rule.name

def put (given : Given) (rule : OptionRule) (values : List String) : Given :=
  let before := (given.values.get? rule.name).getD []
  { given with values := given.values.put rule.name (before ++ values) }

def addFlag (given : Given) (rule : OptionRule) : Except Stop Given :=
  if given.isGiven rule then .error .misuse else .ok (given.put rule [])

/-- The values that a text holds for an option. -/
def valuesOf (rule : OptionRule) (text : String) : List String :=
  match rule.arity with
  | .several => (Text.splitAll ',' text.toList).map String.ofList
  | _ => [text]

def addValue (given : Given) (rule : OptionRule) (text : String) : Except Stop Given :=
  let values := valuesOf rule text
  if (rule.arity = .single && given.isGiven rule) || !values.all rule.accepts then .error .misuse
  else .ok (given.put rule values)

/-- Takes the values of options that are not given from their variables. -/
def complete (vars : Bindings) : List OptionRule → Given → Except Stop Given
  | [], given => .ok given
  | rule :: rest, given =>
    match given.isGiven rule, rule.variableName.bind vars.get? with
    | false, some text => do complete vars rest (← given.addValue rule text)
    | _, _ => complete vars rest given

def all (given : Given) (rule : OptionRule) : List String :=
  (given.values.get? rule.name).getD []

def value? (given : Given) (rule : OptionRule) : Option String := (given.all rule).head?

def value (given : Given) (rule : OptionRule) : String := (given.value? rule).getD rule.fallback

end Given

/-! ## Reading -/

namespace Grammar

def ruleNamed (grammar : Grammar) (name : String) : Except Stop OptionRule :=
  (grammar.options.find? fun rule => rule.name = name).elim (.error .misuse) .ok

def ruleLettered (grammar : Grammar) (letter : Char) : Except Stop OptionRule :=
  (grammar.options.find? fun rule => rule.letter = some letter).elim (.error .misuse) .ok

/-- Takes an option by its name; one that still needs a value is left over. -/
def takeNamed (grammar : Grammar) (given : Given) (name : String) (value : Option String) :
    Except Stop (Given × Option OptionRule) := do
  let rule ← grammar.ruleNamed name
  match rule.arity, value with
  | .ends stop, none => .error stop
  | .ends _, some _ => .error .misuse
  | .flag, none => return (← given.addFlag rule, none)
  | .flag, some _ => .error .misuse
  | _, none => return (given, some rule)
  | _, some value => return (← given.addValue rule value, none)

/-- The value that follows a letter in the same word. -/
def attached : List Char → String
  | '=' :: value => String.ofList value
  | value => String.ofList value

/-- Takes options by their letters; one that still needs a value is left over. -/
def takeLetters (grammar : Grammar) : Given → List Char → Except Stop (Given × Option OptionRule)
  | given, [] => .ok (given, none)
  | given, c :: rest => do
    let rule ← grammar.ruleLettered c
    match rule.arity with
    | .ends stop => .error stop
    | .flag => takeLetters grammar (← given.addFlag rule) rest
    | _ =>
      if rest.isEmpty then .ok (given, some rule)
      else return (← given.addValue rule (attached rest), none)

def takeOptions (grammar : Grammar) (given : Given) :
    OptionWord → Except Stop (Given × Option OptionRule)
  | .long name value => grammar.takeNamed given name value
  | .letters letters => grammar.takeLetters given letters

/-- Takes a word that is no option. -/
def takeOperand (accepts : List (String → Bool)) (given : Given) (text : String) :
    Except Stop Given :=
  match accepts[given.operands.length]? with
  | some accept =>
    if accept text then .ok { given with operands := given.operands ++ [text] } else .error .misuse
  | none => .error .misuse

def read (grammar : Grammar) : Given → List String → Except Stop Given
  | given, [] => .ok given
  | given, word :: rest =>
    match Word.read word with
    | .plain text =>
      match grammar.operands with
      | .command => .ok { given with operands := [text], further := rest }
      | .listed accepts => do read grammar (← takeOperand accepts given text) rest
    | .separator =>
      if grammar.takesFurther || rest.isEmpty then .ok { given with further := rest }
      else .error .misuse
    | .options word =>
      match grammar.takeOptions given word with
      | .error stop => .error stop
      | .ok (given, none) => read grammar given rest
      | .ok (given, some rule) =>
        match rest with
        | [] => .error .misuse
        | value :: rest =>
          match Word.read value with
          | .plain text => do read grammar (← given.addValue rule text) rest
          | _ => .error .misuse

end Grammar

end ClusterConfig.CommandLine
