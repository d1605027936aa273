import ClusterConfig.CommandLine.Outcome
import ClusterConfig.Patch.Reference

/-!
# Inputs

The paths that a task looks at. Some are given with the task; those that a description refers to
are known when it has been read.
-/

set_option autoImplicit false

namespace ClusterConfig

/-- The files that hold patches or contents of machine files. -/
def Settings.referredPaths (settings : Settings) : List String :=
  (settings.patches ++ settings.files.map MachineFile.content).filterMap fun text =>
    (Patch.Reference.parse text).path?

def Cluster.referredPaths (cluster : Cluster) : List String :=
  cluster.controlPlane.referredPaths ++ cluster.worker.referredPaths ++
    cluster.nodes.flatMap fun node => node.settings.referredPaths

namespace CommandLine

def SourceOptions.paths (options : SourceOptions) : List String :=
  options.configFile :: options.decryptProgram :: options.envFiles

/-- A path and those of the directories above it, from the outermost on. -/
def withDirectories (path : String) : List String :=
  let names := Path.names path
  let start := if Path.isAbsolute path then "/" else ""
  (List.range names.length).map fun n => start ++ "/".intercalate (names.take (n + 1))

namespace Task

def source : Task → SourceOptions
  | .generate options => options.source
  | .validate options => options
  | .printCommands options => options.source

/-- The paths that a task is given. -/
def paths : Task → List String
  | .generate options =>
    options.source.paths ++ [options.secretFile, options.clientConfigPath,
      Path.join options.outDirectory IgnoreFile.fileName]
  | .validate options => options.paths
  | .printCommands options => options.source.paths

/-- The paths that the description of a task refers to, once its own files are there. -/
def referredPaths (task : Task) (files : FileTree) (vars : Bindings) : List String :=
  match task.source.load files vars with
  | .ok described => described.cluster.referredPaths
  | .error _ => []

end Task

/-- The path of the log file, if there is to be one. -/
def logPath? (vars : Bindings) : Option String :=
  (vars.get? logDirectoryVariable).map fun directory => Path.join directory logFileName

end CommandLine

end ClusterConfig
