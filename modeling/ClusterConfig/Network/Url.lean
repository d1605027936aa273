import ClusterConfig.Network.Address
import ClusterConfig.Network.International
import ClusterConfig.Text.Search

/-!
# Locations with a scheme, a host and a port

The schemes of the web need a host, however many slashes stand before it; other schemes have one
only after two slashes. What follows the host and port cannot make a location invalid.
-/

set_option autoImplicit false

namespace ClusterConfig

inductive UrlError where
  | noScheme
  | emptyHost
  | invalidPort
  | invalidV4
  | invalidV6
  | invalidName
  | invalidCharacter
deriving DecidableEq

def UrlError.message : UrlError → String
  | .noScheme => "relative URL without a base"
  | .emptyHost => "empty host"
  | .invalidPort => "invalid port number"
  | .invalidV4 => "invalid IPv4 address"
  | .invalidV6 => "invalid IPv6 address"
  | .invalidName => "invalid international domain name"
  | .invalidCharacter => "invalid domain character"

inductive Host where
  | name (text : String)
  | address (address : IpAddress)
deriving DecidableEq

/-- Hosts of eight groups are written without octets and without brackets. -/
def Host.text : Host → String
  | .name text => text
  | .address (.v4 octets) => IpAddress.dotted octets
  | .address (.v6 groups) => IpAddress.shortened groups

structure Url where
  scheme : String
  host : Option Host
  /-- The port, if it is not the usual one of the scheme. -/
  port : Option Nat
deriving DecidableEq

namespace Url

/-- How the rest of a location is read. -/
inductive SchemeKind where
  | file
  | web
  | other
deriving DecidableEq

/-- The schemes of the web and their usual ports. -/
def usualPorts : List (String × Nat) :=
  [("http", 80), ("https", 443), ("ws", 80), ("wss", 443), ("ftp", 21)]

def SchemeKind.of (scheme : String) : SchemeKind :=
  if scheme = "file" then .file
  else if (usualPorts.lookup scheme).isSome then .web
  else .other

def isSchemeChar (c : Char) : Bool := c.isAlphanum || c = '+' || c = '-' || c = '.'

/-- The scheme in lower case, and what follows its colon. -/
def readScheme? (text : List Char) : Option (String × List Char) :=
  let scheme := text.takeWhile isSchemeChar
  match scheme, text.dropWhile isSchemeChar with
  | c :: _, ':' :: rest =>
    if c.isAlpha then some (String.ofList (scheme.map Char.toLower), rest) else none
  | _, _ => none

def isSlash (c : Char) : Bool := c = '/' || c = '\\'

/-- Characters that end the part with the host. -/
def endsAuthority (kind : SchemeKind) (c : Char) : Bool :=
  c = '/' || c = '?' || c = '#' || (kind ≠ .other && c = '\\')

/-- What follows the last `@` of a text, and whether anything stands before it. -/
def afterLastAt? (text : List Char) : Option (Bool × List Char) :=
  let host := (text.reverse.takeWhile (· ≠ '@')).reverse
  if host.length = text.length then none else some (1 < text.length - host.length, host)

/-- What follows the user. `true` tells that there is one. -/
def afterUser (kind : SchemeKind) (text : List Char) : Except UrlError (Bool × List Char) :=
  let authority := text.takeWhile fun c => !endsAuthority kind c
  let rest := text.drop authority.length
  match afterLastAt? authority with
  | none => .ok (false, text)
  | some (named, host) =>
    if !named && host.isEmpty && !rest.isEmpty then .error .emptyHost
    else
      let user := authority.take (authority.length - host.length - 1)
      .ok (user.any (· ≠ ':'), host ++ rest)

/-- The host up to a port or a path; a colon in square brackets belongs to it. -/
def splitHost (kind : SchemeKind) : (bracketed : Bool) → List Char → List Char × List Char
  | _, [] => ([], [])
  | bracketed, c :: rest =>
    if (c = ':' && !bracketed) || endsAuthority kind c then ([], c :: rest)
    else
      let bracketed := if c = '[' then true else if c = ']' then false else bracketed
      let (host, rest) := splitHost kind bracketed rest
      (c :: host, rest)

/-- A number of an address: hexadecimal after `0x`, octal after `0`. The value is missing where it
is too large. -/
def v4Number? (part : List Char) : Option (Option Nat) :=
  let read := fun (radix : Nat) (digits : List Char) =>
    if digits.isEmpty then some (some 0)
    else
      match digits.mapM fun c => (Json.hexValue? c).filter (· < radix) with
      | none => none
      | some values =>
        let n := values.foldl (fun n digit => n * radix + digit) 0
        some (if n < Nat.pow 2 32 then some n else none)
  match part with
  | [] => none
  | '0' :: 'x' :: digits => read 16 digits
  | '0' :: 'X' :: digits => read 16 digits
  | '0' :: c :: digits => read 8 (c :: digits)
  | digits => read 10 digits

/-- The parts between dots, without an empty one at the end. -/
def dotParts (name : List Char) : List (List Char) :=
  let parts := Text.splitAll '.' name
  if 1 < parts.length && parts.getLast? = some [] then parts.dropLast else parts

/-- Whether the last part of a name makes it an address. -/
def endsInNumber (name : List Char) : Bool :=
  match (dotParts name).getLast? with
  | none => false
  | some [] => false
  | some part => part.all Char.isDigit || (v4Number? part).isSome

/-- The first octets of an address and those that a number writes after them. -/
def fillOctets (octets : List Nat) (number : Nat) : List Nat :=
  let missing := 4 - octets.length
  octets ++ (List.range missing).map fun place =>
    number / Nat.pow 256 (missing - 1 - place) % 256

/-- The address that numbers between dots write; the last one fills the octets that are left. -/
def v4Address? (name : List Char) : Option IpAddress := do
  let parts := dotParts name
  if 4 < parts.length then none
  else
    let numbers ← parts.mapM fun part => (v4Number? part).bind id
    let last ← numbers.getLast?
    let octets := numbers.dropLast
    if octets.any (255 < ·) || Nat.pow 256 (4 - octets.length) ≤ last then none
    else return .v4 (fillOctets octets last)

/-- An address in square brackets. -/
def bracketedHost (inside : List Char) : Except UrlError Host :=
  match Text.beforeEnd? [']'] inside with
  | none => .error .invalidV6
  | some inside =>
    match IpAddress.parse? (String.ofList inside) with
    | some (.v6 groups) => .ok (.address (.v6 groups))
    | _ => .error .invalidV6

/-- The host of a web location or a file. -/
def readHost (text : List Char) : Except UrlError Host :=
  match text with
  | '[' :: inside => bracketedHost inside
  | text =>
    match Network.domain? text with
    | none => .error .invalidName
    | some name =>
      if name.isEmpty then .error .emptyHost
      else if endsInNumber name then
        (v4Address? name).elim (.error .invalidV4) fun address => .ok (.address address)
      else .ok (.name (String.ofList name))

/-- Escapes control characters and those beyond ASCII. -/
def escapedHost (text : List Char) : String :=
  String.join (text.map fun c =>
    if 0x20 ≤ c.toNat && c.toNat < 0x7F then String.singleton c
    else String.join ((String.singleton c).toUTF8.toList.map fun byte =>
      String.ofList ['%', hexDigit (byte.toNat / 16), hexDigit (byte.toNat % 16)]))
where
  hexDigit (n : Nat) : Char := (Nat.digitChar n).toUpper

def isForbiddenOther (c : Char) : Bool :=
  c = '\x00' || c = ' ' || "#/:<>?@[\\]^|".toList.contains c

/-- The host of a location of another scheme, which may be empty. -/
def readOtherHost (text : List Char) : Except UrlError (Option Host) :=
  match text with
  | [] => .ok none
  | '[' :: inside => (bracketedHost inside).map some
  | text =>
    if text.any isForbiddenOther then .error .invalidCharacter
    else .ok (some (.name (escapedHost text)))

/-- The port after a colon. -/
def readPort (scheme : String) (text : List Char) : Except UrlError (Option Nat) :=
  match text with
  | ':' :: rest =>
    let digits := rest.takeWhile Char.isDigit
    let port := digits.foldl (fun n c => n * 10 + (c.toNat - 48)) 0
    let ends := (rest.drop digits.length).head?.all fun c => isSlash c || c = '?' || c = '#'
    if 65535 < port || !ends then .error .invalidPort
    else if digits.isEmpty || usualPorts.lookup scheme = some port then .ok none
    else .ok (some port)
  | _ => .ok none

/-- Reads what follows the slashes before a host. -/
def readAuthority (scheme : String) (kind : SchemeKind) (text : List Char) :
    Except UrlError Url := do
  let (hasUser, text) ← afterUser kind text
  let (host, rest) := splitHost kind false text
  if kind = .web && host.isEmpty then throw .emptyHost
  let host ← if kind = .web then (readHost host).map some else readOtherHost host
  if host.isNone && (rest.head? = some ':' || hasUser) then throw .emptyHost
  return ⟨scheme, host, ← readPort scheme rest⟩

def isDriveLetter (text : List Char) : Bool :=
  match text with
  | [c, mark] => c.isAlpha && (mark = ':' || mark = '|')
  | _ => false

/-- The host of a file, which is given after two slashes only. -/
def readFileHost (text : List Char) : Except UrlError (Option Host) :=
  match text with
  | a :: b :: rest =>
    let host := rest.takeWhile fun c => !endsAuthority .file c
    if !(isSlash a && isSlash b) || host.isEmpty || isDriveLetter host then .ok none
    else (readHost host).map fun host => if host = .name "localhost" then none else some host
  | _ => .ok none

def isControlOrSpace (c : Char) : Bool := c.toNat ≤ 0x20

/-- A text without control characters and spaces around it, and without tabs and line ends. -/
def cleaned (text : List Char) : List Char :=
  let text := ((text.dropWhile isControlOrSpace).reverse.dropWhile isControlOrSpace).reverse
  text.filter fun c => c ≠ '\t' && c ≠ '\n' && c ≠ '\r'

def parse (text : String) : Except UrlError Url :=
  match readScheme? (cleaned text.toList) with
  | none => .error .noScheme
  | some (scheme, rest) =>
    match SchemeKind.of scheme with
    | .web => readAuthority scheme .web (rest.dropWhile isSlash)
    | .file => (readFileHost rest).map fun host => ⟨scheme, host, none⟩
    | .other =>
      match rest with
      | '/' :: '/' :: rest => readAuthority scheme .other rest
      | _ => .ok ⟨scheme, none, none⟩

end Url

end ClusterConfig
