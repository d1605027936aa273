import ClusterConfig.CommandLine.Options
import ClusterConfig.Commands
import ClusterConfig.Output.ClientConfig

/-!
# Requests

What a command line asks for. Each command has its own options; the format of log lines is given
before the name of the command.
-/

set_option autoImplicit false

namespace ClusterConfig.CommandLine

/-- Where a cluster is described and what its documents are read with. -/
structure SourceOptions where
  configFile : String
  envFiles : List String
  decryptProgram : String
deriving DecidableEq

structure GenerateOptions where
  source : SourceOptions
  secretFile : String
  outDirectory : String
  /-- Whether the names of the files are added to the ignore file. -/
  ignoresOutput : Bool
deriving DecidableEq

structure PrintOptions where
  source : SourceOptions
  kind : Commands.Kind
  selector : Commands.Selector
  outDirectory : String
  clientConfig : String
  further : List String
deriving DecidableEq

inductive Task where
  | generate (options : GenerateOptions)
  | validate (options : SourceOptions)
  | printCommands (options : PrintOptions)
deriving DecidableEq

inductive Request where
  | showHelp
  | showVersion
  | perform (task : Task)
deriving DecidableEq

/-! ## Options -/

namespace OptionRule

def isPath (text : String) : Bool := !text.isEmpty

def help : OptionRule := ⟨"help", some 'h', .ends .help, none, "", fun _ => true⟩

def version : OptionRule := ⟨"version", some 'V', .ends .version, none, "", fun _ => true⟩

def logFormat : OptionRule :=
  ⟨"log-format", none, .single, some "TALGEN_LOG_FORMAT", "plain", ["plain", "json"].contains⟩

def configFile : OptionRule :=
  ⟨"config-file", some 'c', .single, some "TALGEN_CONFIG", "talconfig.yaml", isPath⟩

def envFiles : OptionRule :=
  ⟨"env-file", some 'e', .several, some "TALGEN_ENV_FILE", "", isPath⟩

def decryptProgram : OptionRule :=
  ⟨"sops", none, .single, some "TALGEN_SOPS", "sops", fun _ => true⟩

def secretFile : OptionRule :=
  ⟨"secret-file", some 's', .single, some "TALGEN_SECRET_FILE", "talsecret.yaml", isPath⟩

def outDirectory : OptionRule :=
  ⟨"out-dir", some 'o', .single, some "TALGEN_OUT_DIR", "./clusterconfig", isPath⟩

def withoutIgnoreFile : OptionRule :=
  ⟨"no-gitignore", none, .flag, none, "", fun _ => true⟩

def node : OptionRule := ⟨"node", some 'n', .single, none, "", fun _ => true⟩

def clientConfig : OptionRule := ⟨"talosconfig", none, .single, none, "", isPath⟩

end OptionRule

/-! ## Commands -/

inductive TaskName where
  | generate
  | validate
  | printCommands
deriving DecidableEq

namespace TaskName

def all : List TaskName := [.generate, .validate, .printCommands]

def text : TaskName → String
  | .generate => "genconfig"
  | .validate => "validate"
  | .printCommands => "gencommand"

def ofText? (text : String) : Option TaskName := all.find? fun name => name.text = text

def sourceRules : List OptionRule :=
  [OptionRule.configFile, OptionRule.envFiles, OptionRule.decryptProgram]

/-- The options of a command apart from the help that each has. -/
def rules : TaskName → List OptionRule
  | .generate =>
    sourceRules ++
      [OptionRule.secretFile, OptionRule.outDirectory, OptionRule.withoutIgnoreFile]
  | .validate => sourceRules
  | .printCommands =>
    sourceRules ++ [OptionRule.node, OptionRule.outDirectory, OptionRule.clientConfig]

def isKind (text : String) : Bool := (Commands.Kind.ofName? text).isSome

def grammar (name : TaskName) : Grammar :=
  { options := OptionRule.help :: name.rules
    operands := .listed (if name = .printCommands then [isKind] else [])
    takesFurther := name = .printCommands }

end TaskName

/-- What stands before the name of a command. -/
def globalGrammar : Grammar :=
  { options := [OptionRule.help, OptionRule.version, OptionRule.logFormat]
    operands := .command
    takesFurther := false }

namespace SourceOptions

def ofGiven (given : Given) : SourceOptions :=
  { configFile := given.value .configFile
    envFiles := given.all .envFiles
    decryptProgram := given.value .decryptProgram }

end SourceOptions

namespace Task

/-- The task that a command is given; only the kind of the commands to print has to be there. -/
def ofGiven? (given : Given) : TaskName → Option Task
  | .generate =>
    some (.generate
      { source := SourceOptions.ofGiven given
        secretFile := given.value .secretFile
        outDirectory := given.value .outDirectory
        ignoresOutput := !given.isGiven .withoutIgnoreFile })
  | .validate => some (.validate (SourceOptions.ofGiven given))
  | .printCommands => do
    let kind ← given.operands.head?.bind Commands.Kind.ofName?
    let outDirectory := given.value .outDirectory
    return .printCommands
      { source := SourceOptions.ofGiven given
        kind
        selector := ((given.value? .node).map Commands.Selector.ofText).getD .everything
        outDirectory
        clientConfig :=
          (given.value? .clientConfig).getD (Path.join outDirectory ClientConfig.fileName)
        further := given.further }

def ofWords (name : TaskName) (words : List String) (vars : Bindings) : Except Stop Task := do
  let given ← name.grammar.read {} words
  let given ← Given.complete vars name.rules given
  (ofGiven? given name).elim (.error .misuse) .ok

end Task

namespace Request

def helpName : String := "help"

/-- Whether help is there for the names of commands in a row: help may follow only itself. -/
def isHelpTopic : List String → Bool
  | [] => true
  | name :: rest =>
    if name = helpName then isHelpTopic rest
    else (TaskName.ofText? name).isSome && rest.isEmpty

/-- The task of a command by its name. -/
def ofCommand (name : String) (words : List String) (vars : Bindings) : Except Stop Task :=
  if name = helpName then .error (if isHelpTopic words then .help else .misuse)
  else
    match TaskName.ofText? name with
    | some name => Task.ofWords name words vars
    | none => .error .misuse

def read (words : List String) (vars : Bindings) : Except Stop Task := do
  let given ← globalGrammar.read {} words
  match given.operands with
  | [] => .error .misuse
  | name :: _ =>
    let task ← ofCommand name given.further vars
    let _ ← Given.complete vars [.logFormat] given
    return task

/-- The request of a command line; `none` if it is misused. -/
def ofWords? (words : List String) (vars : Bindings) : Option Request :=
  match read words vars with
  | .ok task => some (.perform task)
  | .error .help => some .showHelp
  | .error .version => some .showVersion
  | .error .misuse => none

end Request

end ClusterConfig.CommandLine
