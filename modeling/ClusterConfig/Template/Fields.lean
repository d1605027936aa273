import ClusterConfig.Template.Evaluation

/-!
# Templates of labels, annotations and taints

A template may use the fields of the node it is rendered for, and nothing else. Checking a template
is rendering it with empty fields.
-/

set_option autoImplicit false

namespace ClusterConfig.Template

structure Fields where
  hostname : String := ""
  ipAddress : String := ""
  installDisk : String := ""
  talosVersion : String := ""
  kubernetesVersion : String := ""
  clusterName : String := ""
  role : String := ""
deriving DecidableEq

namespace Fields

def toList (fields : Fields) : List (String × String) :=
  [("hostname", fields.hostname), ("ipAddress", fields.ipAddress),
    ("installDisk", fields.installDisk), ("talosVersion", fields.talosVersion),
    ("kubernetesVersion", fields.kubernetesVersion), ("clusterName", fields.clusterName),
    ("role", fields.role)]

def names : List String := (toList {}).map Prod.fst

end Fields

inductive TemplateError where
  | unknownField (template : String)
  | notRendered (template : String)
deriving DecidableEq

namespace TemplateError

def message : TemplateError → String
  | .unknownField template =>
    "template " ++ Text.quoted template ++ " references an unknown field, expected one of [" ++
      String.intercalate ", " (Fields.names.map Text.quoted) ++ "]"
  | .notRendered template => "failed to render template " ++ Text.quoted template

/-- The error of a template, from what went wrong in it. -/
def ofFailure (template : String) : Failure → TemplateError
  | .missingValue => .unknownField template
  | .invalid => .notRendered template

end TemplateError

/-- The text of a template for a node; a text without expressions stands for itself. -/
def render (fields : Fields) (template : String) : Except TemplateError String :=
  if isTemplate template then
    let values := fields.toList.map fun field => (field.1, Value.str field.2)
    (run values (normalize template.toList)).mapError (TemplateError.ofFailure template)
  else .ok template

def check (template : String) : Except TemplateError Unit :=
  (render {} template).map fun _ => ()

end ClusterConfig.Template
