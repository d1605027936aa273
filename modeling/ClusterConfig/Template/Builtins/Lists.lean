import ClusterConfig.Template.Builtins.Texts
import ClusterConfig.Template.Operators

/-!
# Lists of values

Their lengths, orders and extremes. Text is compared without regard to case unless that is asked
for.
-/

set_option autoImplicit false

namespace ClusterConfig.Template.Builtins

def lengthOf : Value → Except Failure Value
  | .str s => .ok (.int s.length)
  | .list items => .ok (.int items.length)
  | .mapping members => .ok (.int members.length)
  | _ => .error .invalid

def reversed : Value → Except Failure Value
  | .str s => .ok (.ofChars s.toList.reverse)
  | .list items => .ok (.list items.reverse)
  | .mapping members => .ok (.list (members.map Prod.fst).reverse)
  | .undefined silent => .ok (.undefined silent)
  | .absent => .ok .absent
  | _ => .error .invalid

/-- The key that sorting compares by: text without regard to case, unless that is asked for. -/
def sortKey (caseSensitive : Bool) : Value → Value
  | .str s => if caseSensitive then .str s else .ofChars (Text.lower s.toList)
  | value => value

def sorted (key : Value → Value) (descending : Bool) (items : List Value) : List Value :=
  items.mergeSort fun a b =>
    if descending then Value.order (key a) (key b) != .lt else Value.order (key a) (key b) != .gt

/-- The items without those whose key occurred before. -/
def distinct (key : Value → Value) (seen : List Value) : List Value → List Value
  | [] => []
  | item :: rest =>
    if seen.any fun k => Value.same k (key item) then distinct key seen rest
    else item :: distinct key (key item :: seen) rest

def least (items : List Value) : Value :=
  match items with
  | [] => .undefined false
  | first :: rest => rest.foldl (fun a b => if Value.order b a == .lt then b else a) first

def greatest (items : List Value) : Value :=
  match items with
  | [] => .undefined false
  | first :: rest => rest.foldl (fun a b => if Value.order b a == .lt then a else b) first

end ClusterConfig.Template.Builtins
