import ClusterConfig.Template.Builtins.Arguments

/-!
# Functions

What can be called by a name that is not a variable.
-/

set_option autoImplicit false

namespace ClusterConfig.Template.Builtins

/-- The most numbers that a range may have. -/
def longestRange : Nat := 100000

def range (arguments : Arguments) : Except Failure Value := do
  let bounds ← (← positional 3 arguments).mapM Value.asWhole
  let (start, stop, step) ← (
    match bounds with
    | [stop] => .ok (0, stop, 1)
    | [start, stop] => .ok (start, stop, 1)
    | [start, stop, step] => .ok (start, stop, step)
    | _ => .error Failure.invalid)
  if step ≤ 0 then throw .invalid
  let count := ((stop - start + step - 1) / step).toNat
  if longestRange < count then throw .invalid
  return .list ((List.range count).map fun (n : Nat) => .int (start + step * (n : Int)))

/-- The value that a function answers. -/
def function (name : String) (arguments : Arguments) : Except Failure Value :=
  match name with
  | "range" => range arguments
  | "dict" => do
    match ← positional 1 ⟨arguments.values, []⟩ with
    | [.mapping members] =>
      return .mapping (arguments.named.foldl (fun found pair =>
        Value.putMember (.str pair.1) pair.2 found) members)
    | [] => return Value.ofNames arguments.named
    | _ => throw .invalid
  | _ => .error .invalid

end ClusterConfig.Template.Builtins
