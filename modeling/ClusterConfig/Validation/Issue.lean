import ClusterConfig.Text.Quoted

/-!
# Issues and reports

An issue is about one place of a description. A report holds the issues that forbid to use the
description apart from those that do not.
-/

set_option autoImplicit false

namespace ClusterConfig.Validation

inductive Severity where
  | error
  | warning
deriving DecidableEq

def Severity.name : Severity → String
  | .error => "error"
  | .warning => "warning"

inductive Kind where
  | required
  | invalidVersion
  | unsupportedVersion
  | unknownVersion
  | invalidEndpoint
  | invalidDomain
  | invalidCidr
  | invalidAddress
  | invalidHostname
  | invalidInstallTarget
  | invalidPatch
  | invalidLabel
  | invalidTemplate
  | interfaceConflict
  | duplicateHostname
  | duplicateVolume
  | duplicateExtension
  | duplicateKernelModule
  | deprecated
deriving DecidableEq

namespace Kind

def all : List Kind :=
  [.required, .invalidVersion, .unsupportedVersion, .unknownVersion, .invalidEndpoint,
    .invalidDomain, .invalidCidr, .invalidAddress, .invalidHostname, .invalidInstallTarget,
    .invalidPatch, .invalidLabel, .invalidTemplate, .interfaceConflict, .duplicateHostname,
    .duplicateVolume, .duplicateExtension, .duplicateKernelModule, .deprecated]

def name : Kind → String
  | .required => "Required"
  | .invalidVersion => "InvalidVersion"
  | .unsupportedVersion => "UnsupportedVersion"
  | .unknownVersion => "UnknownVersion"
  | .invalidEndpoint => "InvalidEndpoint"
  | .invalidDomain => "InvalidDomain"
  | .invalidCidr => "InvalidCidr"
  | .invalidAddress => "InvalidAddress"
  | .invalidHostname => "InvalidHostname"
  | .invalidInstallTarget => "InvalidInstallTarget"
  | .invalidPatch => "InvalidPatch"
  | .invalidLabel => "InvalidLabel"
  | .invalidTemplate => "InvalidTemplate"
  | .interfaceConflict => "InterfaceConflict"
  | .duplicateHostname => "DuplicateHostname"
  | .duplicateVolume => "DuplicateVolume"
  | .duplicateExtension => "DuplicateExtension"
  | .duplicateKernelModule => "DuplicateKernelModule"
  | .deprecated => "Deprecated"

def ofName? (name : String) : Option Kind := all.find? fun kind => kind.name == name

def severity : Kind → Severity
  | .deprecated => .warning
  | .unknownVersion => .warning
  | _ => .error

end Kind

/-- One step from a value of the description to a part of it. -/
inductive Segment where
  | field (name : String)
  | index (index : Nat)
  | key (key : String)
deriving DecidableEq

/-- A place in the description: the steps that lead to it. -/
structure Place where
  segments : List Segment
deriving DecidableEq

namespace Place

def root : Place := ⟨[]⟩

def field (place : Place) (name : String) : Place := ⟨place.segments ++ [.field name]⟩

def index (place : Place) (index : Nat) : Place := ⟨place.segments ++ [.index index]⟩

def key (place : Place) (key : String) : Place := ⟨place.segments ++ [.key key]⟩

/-- Appends the text of a step to the path before it. -/
def append (path : String) : Segment → String
  | .field name => if path.isEmpty then name else path ++ "." ++ name
  | .index index => path ++ "[" ++ toString index ++ "]"
  | .key key => path ++ "[" ++ Text.quoted key ++ "]"

/-- The path of a place, as in `nodes[0].hostname`. -/
def path (place : Place) : String := place.segments.foldl append ""

end Place

/-- A path as it is shown, which is never empty. -/
def shownPath (path : String) : String := if path.isEmpty then "<root>" else path

structure Issue where
  kind : Kind
  place : Place
  message : String
deriving DecidableEq

namespace Issue

def path (issue : Issue) : String := issue.place.path

def shown (issue : Issue) : String :=
  shownPath issue.path ++ ": " ++ issue.message ++ " (" ++ issue.kind.name ++ ")"

end Issue

structure Report where
  errors : List Issue := []
  warnings : List Issue := []
deriving DecidableEq

namespace Report

/-- Files an issue by the severity of its kind. -/
def add (report : Report) (issue : Issue) : Report :=
  match issue.kind.severity with
  | .error => { report with errors := report.errors ++ [issue] }
  | .warning => { report with warnings := report.warnings ++ [issue] }

def ofIssues (issues : List Issue) : Report :=
  ⟨issues.filter fun issue => issue.kind.severity = .error,
    issues.filter fun issue => issue.kind.severity = .warning⟩

def hasErrors (report : Report) : Bool := !report.errors.isEmpty

/-- All issues, the errors first. -/
def issues (report : Report) : List Issue := report.errors ++ report.warnings

def kinds (report : Report) : List Kind := report.issues.map Issue.kind

/-- Adds a value to the group of its key, which is the last one if it is new. -/
def addToGroup {α : Type} (key : String) (value : α) :
    List (String × List α) → List (String × List α)
  | [] => [(key, [value])]
  | (other, values) :: rest =>
    if other = key then (other, values ++ [value]) :: rest
    else (other, values) :: addToGroup key value rest

/-- The issues of each path, in order of appearance. -/
def byPath (report : Report) : List (String × List Issue) :=
  report.issues.foldl (fun groups issue => addToGroup issue.path issue groups) []

theorem add_ofIssues (issues : List Issue) (issue : Issue) :
    (ofIssues issues).add issue = ofIssues (issues ++ [issue]) := by
  cases h : issue.kind.severity <;> simp [add, ofIssues, h]

end Report

end ClusterConfig.Validation
