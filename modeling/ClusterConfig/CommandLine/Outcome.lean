import ClusterConfig.Cluster.Loading
import ClusterConfig.CommandLine.Request
import ClusterConfig.Encryption.Program
import ClusterConfig.Output.Compilation
import ClusterConfig.Validation.Cluster
import ClusterConfig.Variables.EnvFile

/-!
# Outcomes

What a command line does: the lines it prints, the files it leaves and how it ends. A description
with errors is not compiled, and nothing is written before all nodes are compiled. A node that
fails keeps no other node from being written.
-/

set_option autoImplicit false

namespace ClusterConfig.CommandLine

inductive Failure where
  | openLog (directory : String) (reason : FileError)
  | loadEnvFile (reason : Variables.EnvFileError)
  | loadCluster (reason : LoadError)
  | invalidCluster (errors : Nat)
  | loadSecrets (reason : BundleError)
  | keepClient (reason : ClientConfigError)
  | write (reason : WriteError)
  | nodes (failures : List NodeFailure)
  | commands (reason : Commands.CommandError)
deriving DecidableEq

namespace Failure

def message : Failure → String
  | .openLog _ _ => "failed to initialize logging"
  | .loadEnvFile _ => "failed to load the cluster description"
  | .loadCluster _ => "failed to load the cluster description"
  | .invalidCluster errors =>
    "the cluster description has " ++ toString errors ++ " error(s)"
  | .loadSecrets _ => "failed to load the secrets bundle"
  | .keepClient _ => "failed to reuse the existing client configuration"
  | .write _ => "failed to write the generated configurations"
  | .nodes failures => toString failures.length ++ " node(s) failed to compile"
  | .commands _ => "failed to generate commands"

/-- The lines that tell of a failure; nodes have one each. -/
def lines (failure : Failure) : List String :=
  (match failure with
    | .nodes failures => failures.map NodeFailure.headline
    | _ => []) ++ ["Error: " ++ failure.message]

end Failure

/-- The end of a task. -/
structure Result where
  /-- The lines that are printed. -/
  output : List String
  files : FileTree
  ending : Except Failure Unit

/-! ## Cluster descriptions -/

/-- A description that was read, and the variables after that. -/
structure Described where
  source : Documents.Source
  vars : Bindings
  cluster : Cluster

def Described.report (described : Described) : Validation.Report := described.cluster.validate

def loadEnvFiles (files : FileTree) : Bindings → List String → Except Failure Bindings
  | vars, [] => .ok vars
  | vars, path :: rest => do
    let (vars, _) ← (Variables.loadEnvFile vars files path).mapError .loadEnvFile
    loadEnvFiles files vars rest

def SourceOptions.load (options : SourceOptions) (files : FileTree) (vars : Bindings) :
    Except Failure Described := do
  let vars ← loadEnvFiles files vars options.envFiles
  let source : Documents.Source := ⟨files, .ofProgram files options.decryptProgram⟩
  let (vars, loaded) := Cluster.load source options.configFile vars
  return ⟨source, vars, ← loaded.mapError .loadCluster⟩

/-! ## Reports -/

def issueText (issue : Validation.Issue) : String :=
  "[" ++ issue.kind.severity.name ++ "] " ++ issue.message ++ " (" ++ issue.kind.name ++ ")"

/-- A line for each place that has issues. -/
def reportLines (report : Validation.Report) : List String :=
  report.byPath.map fun (path, issues) =>
    Validation.shownPath path ++ ": " ++ "; ".intercalate (issues.map issueText)

/-! ## Tasks -/

def SourceOptions.validate (options : SourceOptions) (files : FileTree) (vars : Bindings) :
    Result :=
  match options.load files vars with
  | .error failure => ⟨[], files, .error failure⟩
  | .ok described =>
    let report := described.report
    if report.hasErrors then
      ⟨reportLines report, files, .error (.invalidCluster report.errors.length)⟩
    else
      let summary := options.configFile ++ " is valid (" ++ toString report.warnings.length ++
        " warning(s))"
      ⟨reportLines report ++ [summary], files, .ok ()⟩

namespace GenerateOptions

def clientConfigPath (options : GenerateOptions) : String :=
  Path.join options.outDirectory ClientConfig.fileName

/-- The secrets with the credentials of an existing client configuration. -/
def loadBundle (options : GenerateOptions) (described : Described) :
    Except Failure (Bindings × Bundle) := do
  let (vars, loaded) := Bundle.load described.source options.secretFile described.vars
  let bundle ← loaded.mapError .loadSecrets
  let (bundle, _) ←
    (bundle.keepExisting described.source.files options.clientConfigPath
      described.cluster.name).mapError .keepClient
  return (vars, bundle)

def compile (options : GenerateOptions) (described : Described) : Except Failure Compilation := do
  let (vars, bundle) ← options.loadBundle described
  let compiler : Compiler := ⟨bundle, Machine.builtIn, described.source, vars⟩
  return compiler.compile described.cluster

def updateIgnoreFile (options : GenerateOptions) (compilation : Compilation) (files : FileTree) :
    FileTree × Except WriteError Nat :=
  if options.ignoresOutput then
    IgnoreFile.update files options.outDirectory compilation.fileNames
  else (files, .ok 0)

def write (options : GenerateOptions) (compilation : Compilation) (files : FileTree) : Result :=
  match compilation.write files options.outDirectory with
  | (files, .error reason) => ⟨[], files, .error (.write reason)⟩
  | (files, .ok _) =>
    match options.updateIgnoreFile compilation files with
    | (files, .error reason) => ⟨[], files, .error (.write reason)⟩
    | (files, .ok _) =>
      ⟨[], files, if compilation.isSuccess then .ok () else .error (.nodes compilation.failures)⟩

def generate (options : GenerateOptions) (files : FileTree) (vars : Bindings) : Result :=
  match options.source.load files vars with
  | .error failure => ⟨[], files, .error failure⟩
  | .ok described =>
    let report := described.report
    if report.hasErrors then
      ⟨reportLines report, files, .error (.invalidCluster report.errors.length)⟩
    else
      match options.compile described with
      | .error failure => ⟨[], files, .error failure⟩
      | .ok compilation => options.write compilation files

end GenerateOptions

def PrintOptions.commands (options : PrintOptions) (files : FileTree) (vars : Bindings) :
    Except Failure (List String) := do
  let described ← options.source.load files vars
  (Commands.generate described.cluster options.kind options.selector options.clientConfig
    options.outDirectory options.further).mapError .commands

def PrintOptions.print (options : PrintOptions) (files : FileTree) (vars : Bindings) : Result :=
  match options.commands files vars with
  | .error failure => ⟨[], files, .error failure⟩
  | .ok lines => ⟨lines, files, .ok ()⟩

def Task.run (task : Task) (files : FileTree) (vars : Bindings) : Result :=
  match task with
  | .generate options => options.generate files vars
  | .validate options => options.validate files vars
  | .printCommands options => options.print files vars

/-! ## Log files -/

def logFileName : String := "talgen.log"

def logDirectoryVariable : String := "TALGEN_LOG_DIRECTORY"

/-- Makes a log file that is not there yet, and its directory. -/
def openLogIn (files : FileTree) (directory : String) : Except FileError FileTree :=
  let path := Path.join directory logFileName
  match files.touch path with
  | .ok files => .ok files
  | .error _ => do (← files.makeDirectories ((FileTree.parentPath? path).getD "")).touch path

/-- Log lines go to a file too if a variable names its directory. -/
def openLog (files : FileTree) (vars : Bindings) : Except Failure FileTree :=
  match vars.get? logDirectoryVariable with
  | none => .ok files
  | some directory => (openLogIn files directory).mapError (.openLog directory)

/-! ## Command lines -/

/-- How a program ends. -/
structure Outcome where
  status : Nat
  output : List String
  errors : List String
  files : FileTree

namespace Outcome

def programName : String := "talgen"

def programVersion : String := "0.1.0"

def usage : List String :=
  ["Usage: " ++ programName ++ " [--log-format FORMAT] COMMAND [OPTIONS]", "", "Commands:",
    "  genconfig   Generate the configuration of every node and of the client",
    "  validate    Check the cluster description without generating anything",
    "  gencommand  Print control commands for the generated configurations",
    "  help        Print this text"]

def ofResult (result : Result) : Outcome :=
  match result.ending with
  | .ok _ => ⟨0, result.output, [], result.files⟩
  | .error failure => ⟨1, result.output, failure.lines, result.files⟩

def ofTask (task : Task) (files : FileTree) (vars : Bindings) : Outcome :=
  match openLog files vars with
  | .error failure => ⟨1, [], failure.lines, files⟩
  | .ok files => ofResult (task.run files vars)

/-- What a command line does to files, with the variables of its environment. -/
def ofWords (words : List String) (files : FileTree) (vars : Bindings) : Outcome :=
  match Request.ofWords? words vars with
  | none => ⟨2, [], usage, files⟩
  | some .showHelp => ⟨0, usage, [], files⟩
  | some .showVersion => ⟨0, [programName ++ " " ++ programVersion], [], files⟩
  | some (.perform task) => ofTask task files vars

end Outcome

end ClusterConfig.CommandLine
