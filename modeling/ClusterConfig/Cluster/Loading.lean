import ClusterConfig.Cluster.Reading
import ClusterConfig.Documents.Reading

/-!
# Loading cluster descriptions

The description is a document like any other; its relative references are taken from the directory
it is in.
-/

set_option autoImplicit false

namespace ClusterConfig

/-- Why a cluster description cannot be loaded. -/
inductive LoadError where
  | read (reason : Documents.ReadError)
  | malformed (path : String)
deriving DecidableEq

namespace LoadError

def messages : LoadError → List String
  | .read reason => reason.messages
  | .malformed path =>
    ["failed to deserialize the cluster description in " ++ Text.quotedPath path]

end LoadError

namespace Cluster

/-- The directory of a description. -/
def directoryOf (files : FileTree) (path : String) : String :=
  Path.parentOfAbsolute (Path.absolute (Path.ofNames files.current) path)

def load (source : Documents.Source) (path : String) (vars : Bindings) :
    Bindings × Except LoadError Cluster :=
  match Documents.read source path vars with
  | (vars, .error reason) => (vars, .error (.read reason))
  | (vars, .ok text) =>
    (vars, (ofText? (directoryOf source.files path) text).elim (.error (.malformed path)) .ok)

end Cluster

end ClusterConfig
