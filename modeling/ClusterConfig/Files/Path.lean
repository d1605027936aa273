import ClusterConfig.Text.Blank

/-!
# Paths

A path is a text whose names are separated by slashes. It is absolute if it starts with one.
-/

set_option autoImplicit false

namespace ClusterConfig.Path

def isAbsolute (path : String) : Bool := path.toList.head? = some '/'

/-- The names between slashes, without empty ones. -/
def names (path : String) : List String :=
  ((Text.splitAll '/' path.toList).filter fun name => !name.isEmpty).map String.ofList

/-- The names without those that stand for the directory itself. -/
def components (path : String) : List String := (names path).filter fun name => name ≠ "."

/-- A path seen from a directory. -/
def join (directory path : String) : String :=
  if isAbsolute path || directory.isEmpty then path
  else if directory.toList.getLast? = some '/' then directory ++ path
  else directory ++ "/" ++ path

def ofNames (names : List String) : String :=
  if names.isEmpty then "/" else String.join (names.map fun name => "/" ++ name)

/-- The absolute form of a path that is not empty, and whether it ended with a slash. -/
def absolute (directory path : String) : String :=
  let start := if isAbsolute path then [] else names directory
  ofNames (start ++ components path)

/-- The directory that the last name of an absolute path is in. -/
def parentOfAbsolute (path : String) : String := ofNames (names path).dropLast

end ClusterConfig.Path
