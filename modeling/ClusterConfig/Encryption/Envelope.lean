import ClusterConfig.Yaml.Encoding
import ClusterConfig.Yaml.Value

/-!
# Encrypted documents

A document is encrypted if it has a mapping under `sops` with a `mac` or a `lastmodified` entry. The
envelope is only looked for; whether it is intact is the decryptor's business. What cannot be read
as YAML is not encrypted.
-/

set_option autoImplicit false

namespace ClusterConfig.Encryption

open Yaml (Value)

/-- The format in which a document is handed to a decryptor and comes back. -/
inductive Format where
  | yaml
  | json
deriving DecidableEq

def Format.name : Format → String
  | .yaml => "yaml"
  | .json => "json"

def isBlankByte (b : UInt8) : Bool := b = 32 || b = 9 || b = 10 || b = 12 || b = 13

/-- A document that starts with a brace is JSON, any other is YAML. -/
def Format.ofBytes (content : ByteArray) : Format :=
  if (content.toList.dropWhile isBlankByte).head? = some 0x7B then .json else .yaml

/-- The entries of a mapping, with or without a tag. -/
def entries : Value → List (Value × Value)
  | .tagged _ value => entries value
  | .map entries => entries
  | _ => []

def hasEnvelope (document : Value) : Bool :=
  match Value.get? (entries document) "sops" with
  | none => false
  | some envelope =>
    ["mac", "lastmodified"].any fun name => (Value.get? (entries envelope) name).isSome

def isEncrypted (content : ByteArray) : Bool :=
  ((Yaml.decode? content).bind Value.ofText?).any hasEnvelope

end ClusterConfig.Encryption
