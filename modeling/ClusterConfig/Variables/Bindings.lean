import ClusterConfig.Members

/-!
# Variables and their values
-/

set_option autoImplicit false

namespace ClusterConfig

/-- The variables that are set, with their values. -/
structure Bindings where
  entries : Members String := []

namespace Bindings

def get? (vars : Bindings) (name : String) : Option String := Members.get? vars.entries name

def set (vars : Bindings) (name value : String) : Bindings := ⟨Members.put vars.entries name value⟩

/-- Sets a variable that is not set yet, and tells whether it did. -/
def setIfAbsent (vars : Bindings) (name value : String) : Bindings × Bool :=
  match vars.get? name with
  | some _ => (vars, false)
  | none => (vars.set name value, true)

def ofMembers (entries : Members String) : Bindings :=
  entries.foldl (fun vars entry => vars.set entry.1 entry.2) {}

theorem get?_set_same (vars : Bindings) (name value : String) :
    (vars.set name value).get? name = some value :=
  Members.get?_put_same vars.entries name value

theorem get?_set_other (vars : Bindings) {name other : String} (value : String)
    (h : other ≠ name) : (vars.set name value).get? other = vars.get? other :=
  Members.get?_put_other vars.entries value h

end Bindings

end ClusterConfig
