import ClusterConfig.Files.Path
import ClusterConfig.Members

/-!
# File trees

A file tree holds directories and files under their absolute names. Paths are followed name by
name: a name has to be in a directory, `..` leads to the directory above, and a path that ends
with a slash has to lead to a directory.
-/

set_option autoImplicit false

namespace ClusterConfig

/-- Why a file operation fails. -/
inductive FileError where
  | notFound
  | isADirectory
  | notADirectory
  | alreadyExists
  | invalidData
  | invalidInput
  | invalidName
  | permissionDenied
deriving DecidableEq

/-- What is found under a name. -/
inductive FileEntry where
  | directory
  | file (content : ByteArray)

/-- Files are told apart by their bytes. -/
instance : DecidableEq FileEntry
  | .directory, .directory => isTrue rfl
  | .directory, .file _ => isFalse nofun
  | .file _, .directory => isFalse nofun
  | .file ⟨a⟩, .file ⟨b⟩ =>
    if h : a = b then isTrue (h ▸ rfl)
    else isFalse fun same => h (by injection same with same; injection same)

/-- The entries under the names on the way from the root, and the directory that paths without a
leading slash start from. -/
structure FileTree where
  entries : List (List String × FileEntry) := []
  current : List String := []

namespace FileTree

def find? (tree : FileTree) (place : List String) : Option FileEntry :=
  if place.isEmpty then some .directory else tree.entries.lookup place

def put (tree : FileTree) (place : List String) (entry : FileEntry) : FileTree :=
  { tree with
    entries :=
      if tree.entries.any fun e => e.1 == place then
        tree.entries.map fun e => if e.1 == place then (place, entry) else e
      else tree.entries ++ [(place, entry)] }

def isDirectory (tree : FileTree) (place : List String) : Bool :=
  tree.find? place == some .directory

/-- Follows names from a place that is known to exist. -/
def follow (tree : FileTree) : List String → List String → Except FileError (List String)
  | place, [] => .ok place
  | place, name :: rest =>
    match tree.find? place with
    | none => .error .notFound
    | some (.file _) => .error .notADirectory
    | some .directory =>
      if 255 < name.utf8ByteSize then .error .invalidName
      else if name = "." then follow tree place rest
      else if name = ".." then follow tree place.dropLast rest
      else
        match rest, tree.find? (place ++ [name]) with
        | _ :: _, none => .error .notFound
        | _, _ => follow tree (place ++ [name]) rest

def endsWithSlash (path : String) : Bool := path.toList.getLast? = some '/'

/-- The place a path leads to; only its last name may be missing. -/
def resolve (tree : FileTree) (path : String) : Except FileError (List String) :=
  if path.isEmpty then .error .notFound
  else if path.toList.any fun c => c.toNat = 0 then .error .invalidInput
  else
    let start := if Path.isAbsolute path then [] else tree.current
    follow tree start (Path.names path)

/-- The entry a path leads to. -/
def entry (tree : FileTree) (path : String) : Except FileError FileEntry := do
  let place ← tree.resolve path
  match tree.find? place with
  | none => .error .notFound
  | some .directory => .ok .directory
  | some (.file content) =>
    if endsWithSlash path then .error .notADirectory else .ok (.file content)

def read (tree : FileTree) (path : String) : Except FileError ByteArray := do
  match ← tree.entry path with
  | .directory => .error .isADirectory
  | .file content => .ok content

/-- The text of a file, which has to be UTF-8. -/
def readText (tree : FileTree) (path : String) : Except FileError String := do
  let content ← tree.read path
  (String.fromUTF8? content).elim (.error .invalidData) .ok

/-- Writes a file whose directory exists. -/
def write (tree : FileTree) (path : String) (content : ByteArray) : Except FileError FileTree := do
  let place ← tree.resolve path
  match tree.find? place with
  | some .directory => .error .isADirectory
  | some (.file _) =>
    if endsWithSlash path then .error .notADirectory else .ok (tree.put place (.file content))
  | none =>
    if endsWithSlash path then .error .isADirectory else .ok (tree.put place (.file content))

/-- Makes an empty file where there is none. -/
def touch (tree : FileTree) (path : String) : Except FileError FileTree :=
  match tree.read path with
  | .ok _ => .ok tree
  | .error .notFound => tree.write path .empty
  | .error reason => .error reason

def makeDirectory (tree : FileTree) (path : String) : Except FileError FileTree := do
  let place ← tree.resolve path
  match tree.find? place with
  | some _ => .error .alreadyExists
  | none => .ok (tree.put place .directory)

/-- The path without its last name; `none` for a root or an empty path. -/
def parentPath? (path : String) : Option String :=
  match (Path.names path).getLast? with
  | none => none
  | some _ =>
    let rest := path.toList.reverse.dropWhile fun c => c = '/'
    let rest := rest.dropWhile fun c => c ≠ '/'
    let above := rest.dropWhile fun c => c = '/'
    if above.isEmpty && !rest.isEmpty then some "/" else some (String.ofList above.reverse)

def pathIsDirectory (tree : FileTree) (path : String) : Bool :=
  match tree.entry path with
  | .ok .directory => true
  | _ => false

/-- Makes a directory and those above it that are missing. The fuel bounds the names of the path. -/
def makeDirectoriesWith : Nat → FileTree → String → Except FileError FileTree
  | 0, _, _ => .error .notFound
  | fuel + 1, tree, path =>
    if path.isEmpty then .ok tree
    else
      match tree.makeDirectory path with
      | .ok tree => .ok tree
      | .error .notFound =>
        match parentPath? path with
        | none => .error .notFound
        | some above => do
          let tree ← makeDirectoriesWith fuel tree above
          match tree.makeDirectory path with
          | .ok tree => .ok tree
          | .error e => if tree.pathIsDirectory path then .ok tree else .error e
      | .error e => if tree.pathIsDirectory path then .ok tree else .error e

def makeDirectories (tree : FileTree) (path : String) : Except FileError FileTree :=
  makeDirectoriesWith (path.length + 1) tree path

/-- The files that another tree has not or has with other contents. -/
def filesSince (tree before : FileTree) : List (List String × ByteArray) :=
  tree.entries.filterMap fun (place, entry) =>
    match entry with
    | .directory => none
    | .file content => if before.find? place = some entry then none else some (place, content)

/-- Puts a file at a place, with all directories above it. -/
def plant (tree : FileTree) (place : List String) (content : ByteArray) : FileTree :=
  let above := (List.range place.length).map fun n => place.take n
  let tree := above.foldl (fun tree place =>
    if place.isEmpty || (tree.find? place).isSome then tree else tree.put place .directory) tree
  tree.put place (.file content)

/-- Puts a directory at a place, with all directories above it. -/
def plantDirectory (tree : FileTree) (place : List String) : FileTree :=
  let above := (List.range (place.length + 1)).map fun n => place.take n
  above.foldl (fun tree place =>
    if place.isEmpty || (tree.find? place).isSome then tree else tree.put place .directory) tree

end FileTree

end ClusterConfig
