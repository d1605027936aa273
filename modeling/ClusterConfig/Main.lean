import ClusterConfig.CommandLine.Inputs

/-!
# The program

Reads what a command line needs into a file tree, runs it there and writes what has changed.
-/

set_option autoImplicit false

namespace ClusterConfig.Main

open CommandLine

/-- Where a path leads from a directory if all its names are directories. -/
def placeOf (current : List String) (path : String) : List String :=
  let start := if Path.isAbsolute path then [] else current
  (Path.components path).foldl
    (fun place name => if name = ".." then place.dropLast else place ++ [name]) start

/-- Adds what is at a path; what cannot be read is taken to be missing. -/
def addPath (files : FileTree) (path : String) : IO FileTree := do
  let place := placeOf files.current path
  match ← (IO.FS.readBinFile path).toBaseIO with
  | .ok content => return files.plant place content
  | .error (.inappropriateType ..) => return files.plantDirectory place
  | .error _ => return files

def addPaths (files : FileTree) (paths : List String) : IO FileTree :=
  (paths.flatMap withDirectories).foldlM addPath files

/-- The files that a task may look at. -/
def addInputs (files : FileTree) (vars : Bindings) (task : Task) : IO FileTree := do
  let files ← addPaths files (task.paths ++ (logPath? vars).toList)
  addPaths files (task.referredPaths files vars)

/-- The variables that are written one after the other, each with a null character at its end. -/
def environmentOf (content : ByteArray) : Bindings :=
  let entries := (Text.splitAll (Char.ofNat 0) ((String.fromUTF8? content).getD "").toList)
  Bindings.ofMembers ((entries.filterMap (Text.splitFirst? '=')).map fun (name, value) =>
    (String.ofList name, String.ofList value))

def environment : IO Bindings := do
  match ← (IO.FS.readBinFile "/proc/self/environ").toBaseIO with
  | .ok content => return environmentOf content
  | .error _ => return {}

/-- The tree of the working directory, before anything is read. -/
def emptyTree : IO FileTree := do
  let current := Path.names (toString (← IO.currentDir))
  return { FileTree.plantDirectory {} current with current }

/-- Makes the directories and writes the files that are new in a tree. -/
def writeChanges (before after : FileTree) : IO Unit := do
  for (place, entry) in after.entries do
    if entry = .directory && before.find? place != some entry then
      IO.FS.createDirAll (Path.ofNames place)
  for (place, content) in after.filesSince before do
    IO.FS.writeBinFile (Path.ofNames place) content

def run (words : List String) : IO UInt32 := do
  let vars ← environment
  let start ← emptyTree
  let files ← match Request.ofWords? words vars with
    | some (.perform task) => addInputs start vars task
    | _ => pure start
  let outcome := Outcome.ofWords words files vars
  writeChanges files outcome.files
  outcome.output.forM IO.println
  outcome.errors.forM IO.eprintln
  return outcome.status.toUInt32

end ClusterConfig.Main

/-- Exits with the status of the outcome. -/
def main (words : List String) : IO UInt32 := ClusterConfig.Main.run words
