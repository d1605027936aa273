import ClusterConfig.Network.Url
import ClusterConfig.Text.Quoted

/-!
# Endpoints of control planes

An endpoint is a location with the scheme `https`, a host and a port that is given.
-/

set_option autoImplicit false

namespace ClusterConfig.Validation

inductive EndpointProblem where
  | notALocation (error : UrlError)
  | otherScheme (scheme : String)
  | noHost
  | noPort
deriving DecidableEq

def EndpointProblem.message : EndpointProblem → String
  | .notALocation error => "is not a URL: " ++ error.message
  | .otherScheme scheme => "must use the https scheme, not " ++ Text.quoted scheme
  | .noHost => "has no host"
  | .noPort => "has no explicit port, e.g. https://10.0.0.10:6443"

def endpointProblem? (endpoint : String) : Option EndpointProblem :=
  match Url.parse endpoint with
  | .error error => some (.notALocation error)
  | .ok url =>
    if url.scheme ≠ "https" then some (.otherScheme url.scheme)
    else if url.host.isNone then some .noHost
    else if url.port.isNone then some .noPort
    else none

end ClusterConfig.Validation
