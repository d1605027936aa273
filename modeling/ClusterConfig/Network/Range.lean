import ClusterConfig.Network.Address
import ClusterConfig.Network.DnsName
import ClusterConfig.Text.Digits

/-!
# Network ranges

A range is an address, a slash and the number of leading bits, which the address family bounds.
-/

set_option autoImplicit false

namespace ClusterConfig.Network

/-- Why a text is no address or range. -/
inductive AddressError where
  | notAnAddress
  | notAnIpAddress
  | notARange
  | invalidLength (length : String) (most : Nat)
deriving DecidableEq

namespace AddressError

def message : AddressError → String
  | .notAnAddress => "is neither an IP address nor a DNS name"
  | .notAnIpAddress => "is not an IP address"
  | .notARange => "is not in CIDR notation (ADDRESS/PREFIX)"
  | .invalidLength length most =>
    "has an invalid prefix length " ++ Text.quoted length ++ ", must be at most " ++ toString most

end AddressError

def ipAddress (text : String) : Except AddressError IpAddress :=
  (IpAddress.parse? text).elim (.error .notAnIpAddress) .ok

/-- An address or a name that can be resolved to one. -/
def checkAddress (text : String) : Except AddressError Unit :=
  if (IpAddress.parse? text).isSome || (DnsName.problems DnsName.domain text).isEmpty then .ok ()
  else .error .notAnAddress

/-- The address and the number of leading bits of a range. -/
def range (text : String) : Except AddressError (IpAddress × Nat) := do
  let (address, length) ← (Text.splitFirst? '/' text.toList).elim (.error .notARange) .ok
  let address ← ipAddress (String.ofList address)
  match (Text.unsigned? 255 length).filter (· ≤ address.width) with
  | some bits => .ok (address, bits)
  | none => .error (.invalidLength (String.ofList length) address.width)

/-- An address of an interface, with or without a number of bits. -/
def checkInterfaceAddress (text : String) : Except AddressError Unit :=
  if text.toList.contains '/' then (range text).map fun _ => () else (ipAddress text).map fun _ => ()

/-- The destination of a route; the default one may be written without a number of bits. -/
def checkRoute (text : String) : Except AddressError Unit :=
  match range text with
  | .ok _ => .ok ()
  | .error e => if text = "0.0.0.0" then .ok () else .error e

end ClusterConfig.Network
