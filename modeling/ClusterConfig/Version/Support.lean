import ClusterConfig.Version.Semantic

/-!
# Supported version pairs

Each minor version of the operating system supports a range of minor versions of Kubernetes, all
of them of major version one.
-/

set_option autoImplicit false

namespace ClusterConfig.Version

/-- Minor versions with the first and last supported minor version of Kubernetes. -/
def supportMatrix : List (Nat × Nat × Nat) :=
  [(3, 24, 26), (4, 25, 27), (5, 26, 28), (6, 24, 29), (7, 25, 30), (8, 26, 31), (9, 27, 32),
    (10, 28, 33), (11, 29, 34)]

/-- Whether a pair of versions fits together. -/
inductive Compatibility where
  | supported
  | unsupported (lowest highest : Nat)
  | unknown
deriving DecidableEq

def compatibility (talos kubernetes : Version) : Compatibility :=
  if talos.major ≠ 1 then .unknown
  else
    match supportMatrix.lookup talos.minor with
    | none => .unknown
    | some (lowest, highest) =>
      if kubernetes.major = 1 && lowest ≤ kubernetes.minor && kubernetes.minor ≤ highest then
        .supported
      else .unsupported lowest highest

end ClusterConfig.Version
