import ClusterConfig.Files.Path
import ClusterConfig.Patch.Reference
import ClusterConfig.Yaml.Value

/-!
# References relative to a cluster description

The lists of patches and manifests and the contents of files may refer to files. A relative
reference there is taken from the directory of the description; any other text that starts like a
reference stays as it is.
-/

set_option autoImplicit false

namespace ClusterConfig.Patch

open Yaml (Value)

def referenceKeys : List String := ["patches", "extraManifests", "content"]

def rootPath (directory path : String) : String :=
  if Path.isAbsolute path then path
  else
    match path.toList with
    | '.' :: '/' :: rest => Path.join directory (String.ofList rest)
    | _ => Path.join directory path

/-- A reference as it is written. -/
def Reference.text : Reference → String
  | .file path => "@" ++ path
  | .literal path => "@!" ++ path
  | .inline text => text

/-- A reference with its path taken from a directory. -/
def rootReference (directory : String) (text : String) : String :=
  (match Reference.parse text with
  | .file path => Reference.file (rootPath directory path)
  | .literal path => .literal (rootPath directory path)
  | .inline text => .inline text).text

def isReferenceKey (key : Value) : Bool :=
  match key.untagged with
  | .str name => referenceKeys.contains name
  | _ => false

mutual

def rootReferences (directory : String) : Value → Value
  | .map entries => .map (rootEntries directory entries)
  | .seq items => .seq (rootItems directory items)
  | .tagged tag value => .tagged tag (rootReferences directory value)
  | value => value

/-- The items of a list that holds no references itself. -/
def rootItems (directory : String) : List Value → List Value
  | [] => []
  | item :: rest => rootReferences directory item :: rootItems directory rest

/-- The items of a list of references. -/
def rootReferenceItems (directory : String) : List Value → List Value
  | [] => []
  | .str text :: rest => .str (rootReference directory text) :: rootReferenceItems directory rest
  | item :: rest => rootReferences directory item :: rootReferenceItems directory rest

def rootEntries (directory : String) : List (Value × Value) → List (Value × Value)
  | [] => []
  | (key, .seq items) :: rest =>
    (key, if isReferenceKey key then .seq (rootReferenceItems directory items)
      else rootReferences directory (.seq items)) :: rootEntries directory rest
  | (key, .str text) :: rest =>
    (key, if isReferenceKey key then .str (rootReference directory text) else .str text) ::
      rootEntries directory rest
  | (key, value) :: rest => (key, rootReferences directory value) :: rootEntries directory rest

end

end ClusterConfig.Patch
