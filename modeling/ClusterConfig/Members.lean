/-!
# Ordered members

The members of an object, a list of names with values. Writing keeps the place of a name that is
there and appends one that is not. Removing a name moves the last member into the freed place.
-/

set_option autoImplicit false

namespace ClusterConfig

/-- Names with values, in order. -/
abbrev Members (α : Type) := List (String × α)

namespace Members

variable {α : Type}

def get? : Members α → String → Option α
  | [], _ => none
  | (name, value) :: rest, key => if name = key then some value else get? rest key

def contains (members : Members α) (key : String) : Bool := (members.get? key).isSome

def put : Members α → String → α → Members α
  | [], key, value => [(key, value)]
  | (name, old) :: rest, key, value =>
    if name = key then (name, value) :: rest else (name, old) :: put rest key value

/-- Removes a name; the last member takes its place. -/
def remove : Members α → String → Members α
  | [], _ => []
  | (name, value) :: rest, key =>
    if name = key then
      match rest.getLast? with
      | none => []
      | some last => last :: rest.dropLast
    else (name, value) :: remove rest key

def keys (members : Members α) : List String := members.map Prod.fst

/-- Adds members one after the other, later values winning. -/
def putAll (members : Members α) (more : Members α) : Members α :=
  more.foldl (fun acc entry => put acc entry.1 entry.2) members

theorem get?_put_same (members : Members α) (key : String) (value : α) :
    get? (put members key value) key = some value := by
  induction members with
  | nil => simp [put, get?]
  | cons entry rest ih =>
    by_cases h : entry.1 = key <;> simp [put, get?, h, ih]

theorem get?_put_other (members : Members α) {key other : String} (value : α) (h : other ≠ key) :
    get? (put members key value) other = get? members other := by
  induction members with
  | nil => simp [put, get?, Ne.symm h]
  | cons entry rest ih =>
    by_cases hk : entry.1 = key
    · simp [put, get?, hk, Ne.symm h]
    · by_cases ho : entry.1 = other <;> simp [put, get?, hk, ho, ih, h]

end Members

end ClusterConfig
