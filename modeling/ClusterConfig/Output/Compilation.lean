import ClusterConfig.Machine.Synthesis
import ClusterConfig.Output.ClientConfig
import ClusterConfig.Output.IgnoreFile
import ClusterConfig.Patch.Application

/-!
# Compiling a cluster

Each node is compiled for itself, with the variables as they were before the first. A node that
fails is reported and does not keep the others from being compiled and written.
-/

set_option autoImplicit false

namespace ClusterConfig

/-- Why a node has no configuration. -/
inductive NodeError where
  | synthesize (reason : Machine.SynthesisError)
  | patch (reason : Patch.ApplyError)
deriving DecidableEq

namespace NodeError

/-- What failed, without its cause. -/
def summary : NodeError → String
  | .synthesize _ => "failed to synthesize the machine configuration"
  | .patch _ => "failed to apply patches"

/-- The texts of an error and of what caused it. -/
def messages (e : NodeError) : List String :=
  e.summary ::
    match e with
    | .synthesize reason => reason.messages
    | .patch reason => reason.messages

end NodeError

structure NodeFailure where
  /-- The place of the node in the description. -/
  index : Nat
  hostname : String
  error : NodeError
deriving DecidableEq

/-- The line that tells of a failure. -/
def NodeFailure.headline (failure : NodeFailure) : String :=
  "nodes[" ++ toString failure.index ++ "] (" ++ failure.hostname ++ "): " ++ failure.error.summary

/-- The documents of a node, the machine configuration first. -/
structure Artifact where
  hostname : String
  fileName : String
  documents : List Json

def Artifact.text (artifact : Artifact) : String := Yaml.writeDocuments artifact.documents

structure Compilation where
  artifacts : List Artifact
  failures : List NodeFailure
  client : ClientConfig

/-- What the nodes of a cluster are compiled with. -/
structure Compiler where
  bundle : Bundle
  generate : Machine.Generator
  source : Documents.Source
  vars : Bindings

namespace Compiler

/-- The documents of a node that is merged with the settings of its role. -/
def compileNode (compiler : Compiler) (cluster : Cluster) (node : Node) :
    Except NodeError (List Json) := do
  let documents ←
    (Machine.synthesize compiler.generate compiler.source.files node cluster compiler.bundle).mapError
      .synthesize
  let patches := Patch.PatchSet.ofSettings node.settings
  let (state, result) := patches.apply compiler.source ⟨documents.machine, compiler.vars⟩
  let _ ← result.mapError .patch
  return state.doc :: documents.extra

/-- What becomes of the node at a place of the description. -/
def outcome (compiler : Compiler) (cluster : Cluster) (index : Nat) (node : Node) :
    Except NodeFailure Artifact :=
  match compiler.compileNode cluster node with
  | .ok documents => .ok ⟨node.hostname, cluster.fileName node.hostname, documents⟩
  | .error e => .error ⟨index, node.hostname, e⟩

def outcomes (compiler : Compiler) (cluster : Cluster) : List (Except NodeFailure Artifact) :=
  cluster.mergedNodes.zipIdx.map fun (node, index) => compiler.outcome cluster index node

def artifact? : Except NodeFailure Artifact → Option Artifact
  | .ok artifact => some artifact
  | .error _ => none

def failure? : Except NodeFailure Artifact → Option NodeFailure
  | .ok _ => none
  | .error failure => some failure

def compile (compiler : Compiler) (cluster : Cluster) : Compilation :=
  let outcomes := compiler.outcomes cluster
  ⟨outcomes.filterMap artifact?, outcomes.filterMap failure?,
    ClientConfig.ofBundle cluster compiler.bundle⟩

end Compiler

namespace Compilation

def isSuccess (compilation : Compilation) : Bool := compilation.failures.isEmpty

/-- The files that are written, and their texts. -/
def outputs (compilation : Compilation) : List (String × String) :=
  compilation.artifacts.map (fun artifact => (artifact.fileName, artifact.text)) ++
    [(ClientConfig.fileName, compilation.client.text)]

def fileNames (compilation : Compilation) : List String := compilation.outputs.map Prod.fst

/-- Writes a file, making the directories above it. -/
def writeOutput (files : FileTree) (path text : String) : FileTree × Except WriteError Unit :=
  let above := (FileTree.parentPath? path).getD ""
  match files.makeDirectories above with
  | .error reason => (files, .error (.createDirectory above reason))
  | .ok files =>
    match files.write path text.toUTF8 with
    | .error reason => (files, .error (.writeArtifact path reason))
    | .ok files => (files, .ok ())

/-- Writes files in order, up to the first that fails; what was written stays. -/
def writeOutputs (directory : String) :
    FileTree → List (String × String) → FileTree × Except WriteError (List String)
  | files, [] => (files, .ok [])
  | files, (name, text) :: rest =>
    let path := Path.join directory name
    match writeOutput files path text with
    | (files, .error e) => (files, .error e)
    | (files, .ok _) =>
      let (files, written) := writeOutputs directory files rest
      (files, written.map (path :: ·))

/-- Writes all configurations into a directory; the paths of the files. -/
def write (compilation : Compilation) (files : FileTree) (directory : String) :
    FileTree × Except WriteError (List String) :=
  match files.makeDirectories directory with
  | .error reason => (files, .error (.createDirectory directory reason))
  | .ok files => writeOutputs directory files compilation.outputs

end Compilation

end ClusterConfig
