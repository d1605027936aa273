import ClusterConfig.Template.Value

/-!
# Expressions and statements

What a template is made of once it is read.
-/

set_option autoImplicit false

namespace ClusterConfig.Template

inductive Arithmetic where
  | add | sub | mul | div | floorDiv | rem | pow
deriving DecidableEq

inductive Comparison where
  | eq | ne | lt | le | gt | ge
deriving DecidableEq

inductive BinaryOp where
  | arithmetic (op : Arithmetic)
  | comparison (op : Comparison)
  | concat
  | contains
deriving DecidableEq

inductive Expr where
  | constant (value : Value)
  | variable (name : String)
  | list (items : List Expr)
  | mapping (members : List (Expr × Expr))
  | attribute (source : Expr) (name : String)
  | item (source key : Expr)
  | slice (source start stop step : Expr)
  /-- Arguments that are named stand last. -/
  | call (name : String) (arguments : List Expr) (named : List (String × Expr))
  | method (source : Expr) (name : String) (arguments : List Expr) (named : List (String × Expr))
  | callValue (source : Expr) (arguments : List Expr) (named : List (String × Expr))
  | filter (source : Expr) (name : String) (arguments : List Expr) (named : List (String × Expr))
  | test (source : Expr) (name : String) (arguments : List Expr) (named : List (String × Expr))
  | not (operand : Expr)
  | negate (operand : Expr)
  | and (left right : Expr)
  | or (left right : Expr)
  | binary (op : BinaryOp) (left right : Expr)
  | choose (condition yes no : Expr)

/-- What a value is assigned to: a name, or a name for each of its items. -/
inductive Target where
  | name (name : String)
  | each (targets : List Target)

/-- A filter that waits for its source. -/
structure PendingFilter where
  name : String
  arguments : List Expr
  named : List (String × Expr)

def PendingFilter.of (filter : PendingFilter) (source : Expr) : Expr :=
  .filter source filter.name filter.arguments filter.named

inductive Statement where
  | text (text : String)
  | output (value : Expr)
  | branch (condition : Expr) (yes no : List Statement)
  /-- Goes through the items of `source` that pass `keep`. -/
  | loop (target : Target) (source : Expr) (keep : Option Expr) (body otherwise : List Statement)
  | assign (target : Target) (value : Expr)
  /-- Assigns what the body prints, passed through the filters. -/
  | capture (name : String) (filters : List PendingFilter) (body : List Statement)
  | within (assignments : List (Target × Expr)) (body : List Statement)
  | filtered (filters : List PendingFilter) (body : List Statement)
  | evaluate (value : Expr)
  | block (body : List Statement)

end ClusterConfig.Template
