import ClusterConfig.Files.Tree
import ClusterConfig.Text.Lines
import ClusterConfig.Text.Quoted

/-!
# Ignore files

Names are appended to the ignore file of a directory, each on a line of its own, unless a line has
them already. Blanks around a line do not count.
-/

set_option autoImplicit false

namespace ClusterConfig

namespace IgnoreFile

def fileName : String := ".gitignore"

def presentNames (content : String) : List String :=
  (Text.lines content.toList).map fun line => String.ofList (Text.trimChars line)

/-- A text that further lines may follow. -/
def endLine (content : String) : String :=
  if content.isEmpty || content.toList.getLast? = some '\n' then content else content ++ "\n"

/-- Appends the names that are not among those seen. -/
def appendNames : (seen : List String) → (content : String) → List String → String × Nat
  | _, content, [] => (content, 0)
  | seen, content, name :: rest =>
    if seen.contains name then appendNames seen content rest
    else
      let (content, added) := appendNames (seen ++ [name]) (endLine content ++ name ++ "\n") rest
      (content, added + 1)

/-- The content with names appended, and how many. -/
def extend (content : String) (names : List String) : String × Nat :=
  appendNames (presentNames content) content names

end IgnoreFile

/-- Why output cannot be written. -/
inductive WriteError where
  | createDirectory (path : String) (reason : FileError)
  | writeArtifact (path : String) (reason : FileError)
  | readIgnoreFile (path : String) (reason : FileError)
  | writeIgnoreFile (path : String) (reason : FileError)
deriving DecidableEq

def WriteError.message : WriteError → String
  | .createDirectory path _ => "failed to create output directory " ++ Text.quotedPath path
  | .writeArtifact path _ => "failed to write " ++ Text.quotedPath path
  | .readIgnoreFile path _ => "failed to read " ++ Text.quotedPath path
  | .writeIgnoreFile path _ => "failed to update " ++ Text.quotedPath path

namespace IgnoreFile

/-- The text of the file, which is empty where there is none. -/
def content (files : FileTree) (path : String) : Except WriteError String :=
  match files.readText path with
  | .ok text => .ok text
  | .error .notFound => .ok ""
  | .error reason => .error (.readIgnoreFile path reason)

/-- Adds names to the ignore file of a directory; the files and how many names were added. -/
def update (files : FileTree) (directory : String) (names : List String) :
    FileTree × Except WriteError Nat :=
  let path := Path.join directory fileName
  match content files path with
  | .error e => (files, .error e)
  | .ok existing =>
    match extend existing names with
    | (_, 0) => (files, .ok 0)
    | (text, added) =>
      match files.makeDirectories directory with
      | .error reason => (files, .error (.createDirectory directory reason))
      | .ok files =>
        match files.write path text.toUTF8 with
        | .error reason => (files, .error (.writeIgnoreFile path reason))
        | .ok files => (files, .ok added)

end IgnoreFile

end ClusterConfig
