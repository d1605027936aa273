import ClusterConfig.Cluster.Basic
import ClusterConfig.Cluster.Printing
import ClusterConfig.Files.Tree
import ClusterConfig.Secrets.Bundle
import ClusterConfig.Yaml.Printer
import ClusterConfig.Yaml.Source

/-!
# Client configurations

How the control program reaches a cluster: for each of its contexts the endpoints, the nodes, the
authority of the machines and the credentials of the client. Credentials that were issued by the
same authority are kept when a configuration is written again.
-/

set_option autoImplicit false

namespace ClusterConfig

structure ClientContext where
  endpoints : List String
  nodes : List String
  /-- The certificate of the authority of the machines. -/
  authority : String
  certificate : String
  key : String
deriving DecidableEq

structure ClientConfig where
  /-- The name of the context that is used. -/
  active : String
  contexts : Members ClientContext
deriving DecidableEq

open Yaml

namespace ClientContext

def ofSource? (source : Source) : Option ClientContext := do
  let f ← source.fields? ["endpoints", "nodes", "ca", "crt", "key"]
  return {
    endpoints := ← Fields.texts f "endpoints"
    nodes := ← Fields.texts f "nodes"
    authority := ← Fields.text f "ca"
    certificate := ← Fields.text f "crt"
    key := ← Fields.text f "key" }

def toJson (context : ClientContext) : Json :=
  .obj ([("endpoints", .strings context.endpoints)] ++ textsMember "nodes" context.nodes ++
    [("ca", .str context.authority), ("crt", .str context.certificate), ("key", .str context.key)])

end ClientContext

inductive ClientConfigError where
  | read (path : String) (reason : FileError)
  | malformed (path : String)
deriving DecidableEq

def ClientConfigError.message : ClientConfigError → String
  | .read path _ => "failed to read the client configuration " ++ Text.quotedPath path
  | .malformed path => "failed to deserialize the client configuration " ++ Text.quotedPath path

namespace ClientConfig

def fileName : String := "talosconfig"

def ofSource? (source : Source) : Option ClientConfig := do
  let f ← source.fields? ["context", "contexts"]
  return {
    active := ← Fields.required f "context" Source.string?
    contexts := ← Fields.required f "contexts" (Source.members? ClientContext.ofSource?) }

def ofText? (text : String) : Option ClientConfig := do ofSource? (.text (← Yaml.node? text))

def toJson (config : ClientConfig) : Json :=
  .obj [("context", .str config.active),
    ("contexts", .obj (config.contexts.map fun entry => (entry.1, entry.2.toJson)))]

def text (config : ClientConfig) : String := Yaml.writeMarked config.toJson

def activeContext? (config : ClientConfig) : Option ClientContext :=
  config.contexts.get? config.active

/-- The configuration of a cluster: the control planes are its endpoints. -/
def ofBundle (cluster : Cluster) (bundle : Bundle) : ClientConfig :=
  let admin := bundle.admin.getD ⟨"", ""⟩
  ⟨cluster.name, [(cluster.name,
    { endpoints := cluster.controlPlaneNodes.flatMap Node.addresses
      nodes := cluster.nodes.flatMap Node.addresses
      authority := bundle.machine.certificate
      certificate := admin.certificate
      key := admin.key })]⟩

/-- An existing configuration, unless there is none. -/
def read (files : FileTree) (path : String) : Except ClientConfigError (Option ClientConfig) :=
  match files.readText path with
  | .error .notFound => .ok none
  | .error reason => .error (.read path reason)
  | .ok text =>
    match ofText? text with
    | some config => .ok (some config)
    | none => .error (.malformed path)

end ClientConfig

/-- Keeps the credentials that a configuration has for a cluster; both parts have to be there. -/
def Bundle.keepFrom (bundle : Bundle) (config : ClientConfig) (clusterName : String) :
    Bundle × Bool :=
  match config.contexts.get? clusterName with
  | none => (bundle, false)
  | some context =>
    if context.certificate.isEmpty || context.key.isEmpty then (bundle, false)
    else bundle.keepAdmin context.authority ⟨context.certificate, context.key⟩

/-- Keeps the credentials of the configuration at a path, if there is one. -/
def Bundle.keepExisting (bundle : Bundle) (files : FileTree) (path clusterName : String) :
    Except ClientConfigError (Bundle × Bool) := do
  match ← ClientConfig.read files path with
  | none => return (bundle, false)
  | some config => return bundle.keepFrom config clusterName

end ClusterConfig
