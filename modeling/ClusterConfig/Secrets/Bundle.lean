import ClusterConfig.Text.Base64
import ClusterConfig.Text.Blank
import ClusterConfig.Version.Contract
import ClusterConfig.Yaml.Source
import ClusterConfig.Documents.Reading

/-!
# Secrets bundles

The secrets of a cluster: identities, tokens, and certificates with their keys, each a base64 text of
a PEM block. Configurations hold them exactly as the bundle does.
-/

set_option autoImplicit false

namespace ClusterConfig

open Yaml (Source Fields.option Fields.required Fields.optionText)

/-- A certificate and its private key. -/
structure Credentials where
  certificate : String
  key : String
deriving DecidableEq

structure Bundle where
  clusterId : String
  clusterSecret : String
  bootstrapToken : String
  secretboxSecret : String
  aescbcSecret : Option String
  trustToken : String
  etcd : Credentials
  kubernetes : Credentials
  aggregator : Credentials
  serviceAccountKey : String
  /-- The authority of the machines, which also issues client credentials. -/
  machine : Credentials
  /-- Client credentials kept from an earlier run. -/
  admin : Option Credentials
  /-- The version that the bundle is compatible with. -/
  contract : Option String

/-- Why a bundle cannot be used. -/
inductive BundleError where
  | read (reason : Documents.ReadError)
  | malformed (path : String)
  | notBase64 (field : String)
  | notPem (field : String)
deriving DecidableEq

namespace BundleError

def messages : BundleError → List String
  | .read reason => "failed to read the secrets bundle" :: reason.messages
  | .malformed path => ["failed to deserialize the secrets bundle in " ++ Text.quotedPath path]
  | .notBase64 field => [field ++ " is not valid base64"]
  | .notPem field => [field ++ " is not a PEM encoded block"]

end BundleError

namespace Credentials

def ofSource? (source : Source) : Option Credentials := do
  let f ← source.fields? ["crt", "key"]
  some ⟨← Fields.required f "crt" Source.string?, ← Fields.required f "key" Source.string?⟩

def toJson (credentials : Credentials) : Json :=
  .obj [("crt", .str credentials.certificate), ("key", .str credentials.key)]

end Credentials

namespace Bundle

/-! ## Documents -/

def ofSource? (source : Source) : Option Bundle := do
  let f ← source.fields? ["cluster", "secrets", "trustdinfo", "certs", "versionContract"]
  let cluster ← Fields.required f "cluster" fun s => s.fields? ["id", "secret"]
  let secrets ← Fields.required f "secrets" fun s =>
    s.fields? ["bootstraptoken", "secretboxencryptionsecret", "aescbcencryptionsecret"]
  let trust ← Fields.required f "trustdinfo" fun s => s.fields? ["token"]
  let certs ← Fields.required f "certs" fun s =>
    s.fields? ["etcd", "k8s", "k8saggregator", "k8sserviceaccount", "os", "admin"]
  let account ← Fields.required certs "k8sserviceaccount" fun s => s.fields? ["key"]
  some
    { clusterId := ← Fields.required cluster "id" Source.string?
      clusterSecret := ← Fields.required cluster "secret" Source.string?
      bootstrapToken := ← Fields.required secrets "bootstraptoken" Source.string?
      secretboxSecret := ← Fields.required secrets "secretboxencryptionsecret" Source.string?
      aescbcSecret := ← Fields.optionText secrets "aescbcencryptionsecret"
      trustToken := ← Fields.required trust "token" Source.string?
      etcd := ← Fields.required certs "etcd" Credentials.ofSource?
      kubernetes := ← Fields.required certs "k8s" Credentials.ofSource?
      aggregator := ← Fields.required certs "k8saggregator" Credentials.ofSource?
      serviceAccountKey := ← Fields.required account "key" Source.string?
      machine := ← Fields.required certs "os" Credentials.ofSource?
      admin := ← Fields.option certs "admin" Credentials.ofSource?
      contract := ← Fields.optionText f "versionContract" }

def ofText? (text : String) : Option Bundle := do ofSource? (.text (← Yaml.node? text))

def optional (name : String) : Option Json → List (String × Json)
  | none => []
  | some value => [(name, value)]

def toJson (bundle : Bundle) : Json :=
  .obj ([
    ("cluster", .obj [("id", .str bundle.clusterId), ("secret", .str bundle.clusterSecret)]),
    ("secrets", .obj ([("bootstraptoken", .str bundle.bootstrapToken),
      ("secretboxencryptionsecret", .str bundle.secretboxSecret)] ++
      optional "aescbcencryptionsecret" (bundle.aescbcSecret.map .str))),
    ("trustdinfo", .obj [("token", .str bundle.trustToken)]),
    ("certs", .obj ([("etcd", bundle.etcd.toJson), ("k8s", bundle.kubernetes.toJson),
      ("k8saggregator", bundle.aggregator.toJson),
      ("k8sserviceaccount", .obj [("key", .str bundle.serviceAccountKey)]),
      ("os", bundle.machine.toJson)] ++ optional "admin" (bundle.admin.map Credentials.toJson)))] ++
    optional "versionContract" (bundle.contract.map .str))

/-! ## Checks -/

def credentialMaterial (name : String) (credentials : Credentials) : List (String × String) :=
  [(name ++ ".crt", credentials.certificate), (name ++ ".key", credentials.key)]

/-- The certificates and keys under the names of their fields, in the order of the checks. -/
def material (bundle : Bundle) : List (String × String) :=
  credentialMaterial "certs.etcd" bundle.etcd ++
    credentialMaterial "certs.k8s" bundle.kubernetes ++
    credentialMaterial "certs.k8saggregator" bundle.aggregator ++
    [("certs.k8sserviceaccount.key", bundle.serviceAccountKey)] ++
    credentialMaterial "certs.os" bundle.machine ++
    (match bundle.admin with
      | some admin => credentialMaterial "certs.admin" admin
      | none => [])

/-- The start of a PEM block. -/
def pemStart : List Nat := "-----BEGIN ".toList.map Char.toNat

def checkField (field text : String) : Except BundleError Unit :=
  match Base64.decode? (Text.trimChars text.toList) with
  | none => .error (.notBase64 field)
  | some bytes => if pemStart.isPrefixOf bytes then .ok () else .error (.notPem field)

/-- Checks that all certificates and keys are PEM blocks; the first that is not one is reported. -/
def checkMaterial (bundle : Bundle) : Except BundleError Unit :=
  bundle.material.forM fun entry => checkField entry.1 entry.2

/-- The version that the bundle, or else the given text, is compatible with. A text that is none
comes back as it is. -/
def versionContract (bundle : Bundle) (talosVersion : String) : Except String VersionContract :=
  let text := bundle.contract.getD talosVersion
  (VersionContract.ofText? text).elim (.error text) .ok

/-- Keeps client credentials that the machine authority of the bundle issued. -/
def keepAdmin (bundle : Bundle) (authority : String) (admin : Credentials) : Bundle × Bool :=
  if authority = bundle.machine.certificate then ({ bundle with admin := some admin }, true)
  else (bundle, false)

/-- A bundle from its document. -/
def load (source : Documents.Source) (path : String) (vars : Bindings) :
    Bindings × Except BundleError Bundle :=
  match Documents.read source path vars with
  | (vars, .error reason) => (vars, .error (.read reason))
  | (vars, .ok text) =>
    match ofText? text with
    | none => (vars, .error (.malformed path))
    | some bundle => (vars, bundle.checkMaterial.map fun _ => bundle)

end Bundle

end ClusterConfig
