import ClusterConfig.Version.Semantic

/-!
# Version contracts

A contract is the major and minor version that a configuration is generated for. Features of the
configuration depend on it.
-/

set_option autoImplicit false

namespace ClusterConfig

/-- The version that generated configurations are compatible with. -/
structure VersionContract where
  major : Nat
  minor : Nat
deriving DecidableEq

namespace VersionContract

/-- The order of contracts, by major and then by minor version. -/
def compare (a b : VersionContract) : Ordering :=
  (Ord.compare a.major b.major).then (Ord.compare a.minor b.minor)

def atLeast (c : VersionContract) (major minor : Nat) : Bool :=
  (c.compare ⟨major, minor⟩).isGE

/-- The load balancer for the Kubernetes API on each node, since v1.6. -/
def kubePrism (c : VersionContract) : Bool := c.atLeast 1 6

/-- The name cache on each node, since v1.7. -/
def hostDns (c : VersionContract) : Bool := c.atLeast 1 7

/-- Volumes as documents of their own, since v1.10. -/
def userVolumes (c : VersionContract) : Bool := c.atLeast 1 10

/-- The contract of a version text; everything after the second number is ignored. -/
def ofText? (text : String) : Option VersionContract :=
  match Text.splitAll '.' (Version.bare text) with
  | major :: minor :: _ => do
    some ⟨← Text.unsigned? Text.wordLimit major, ← Text.unsigned? Text.wordLimit minor⟩
  | _ => none

def notAContract (text : String) : String :=
  "invalid version contract " ++ Text.quoted text ++ ", expected vMAJOR.MINOR"

def text (c : VersionContract) : String := "v" ++ toString c.major ++ "." ++ toString c.minor

end VersionContract

end ClusterConfig
