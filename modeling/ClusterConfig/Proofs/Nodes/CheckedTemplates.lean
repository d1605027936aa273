import Mathlib
import ClusterConfig.Proofs.Nodes.Outcomes
import ClusterConfig.Proofs.Nodes.Rendered
import ClusterConfig.Proofs.Templates.Statements
import ClusterConfig.Proofs.Validation.CheckedValues
import ClusterConfig.Template.Fields

/-!
# Checked templates

The templates of a cluster are checked with empty fields, before any node is rendered. Where the
course of a template is the same for all fields, what is found then holds for every node; a template
that is not steady may take a way on a node that the check has not taken.
-/

set_option autoImplicit false

namespace ClusterConfig.Template

/-- What is known at the start of a template: the fields are texts, which differ by node. -/
def Knowledge.ofFields : Knowledge := Fields.names.map fun name => (name, .shaped .text)

/-- Whether the course of a template is the same for all fields: what may fail reads none of them,
and what depends on them never fails. -/
def isSteady (template : String) : Bool :=
  match Reading.statements? (normalize template.toList) with
  | none => true
  | some statements => (learnAll? .ofFields statements).isSome

variable {fields other : Fields} {template : String}

/-- The scope that a template starts in. -/
def Fields.scope (fields : Fields) : List (String × Value) :=
  fields.toList.map fun field => (field.1, .str field.2)

theorem get_single (scope : List (String × Value)) (name : String) :
    Scopes.get [scope] name = (scope.lookup name).getD (.undefined false) := by
  rw [Scopes.get, List.findSome?_cons]
  cases scope.lookup name <;> rfl

theorem lookup_texts (pairs : List (String × String)) (name : String) :
    (pairs.map fun pair => (pair.1, Value.str pair.2)).lookup name =
      (pairs.lookup name).map .str := by
  induction pairs with
  | nil => rfl
  | cons pair pairs ih =>
    rw [List.map_cons, lookup_cons_eq, lookup_cons_eq, ih]
    split <;> rfl

/-- Each field is a text. -/
theorem get_field (fields : Fields) (name : String) (hm : name ∈ Fields.names) :
    ∃ text, Scopes.get [fields.scope] name = .str text := by
  have hsome : (fields.toList.lookup name).isSome = true :=
    (isSome_lookup fields.toList name).trans (decide_eq_true hm)
  obtain ⟨text, htext⟩ := Option.isSome_iff_exists.mp hsome
  refine ⟨text, ?_⟩
  rw [get_single, Fields.scope, lookup_texts, htext]
  rfl

/-- No other name has a value. -/
theorem get_other (fields : Fields) (name : String) (hm : name ∉ Fields.names) :
    Scopes.get [fields.scope] name = .undefined false := by
  have hnone : (fields.toList.lookup name).isSome = false :=
    (isSome_lookup fields.toList name).trans (decide_eq_false hm)
  rw [get_single, Fields.scope, lookup_texts, Option.isNone_iff_eq_none.mp
    (Option.isSome_eq_false_iff.mp hnone)]
  rfl

theorem ofFields_of (name : String) :
    Knowledge.ofFields.of name = if name ∈ Fields.names then .shaped .text else .fixed :=
  Knowledge.of_map Fields.names (fun _ => .shaped .text) name

theorem fits_fields (fields : Fields) : Knowledge.ofFields.Fits [fields.scope] := by
  intro name shape hshape
  rw [ofFields_of] at hshape
  split at hshape
  · cases hshape
    exact get_field fields name ‹_›
  · cases hshape

theorem relates_fields (fields other : Fields) :
    Knowledge.ofFields.Relates [fields.scope] [other.scope] where
  left := fits_fields fields
  right := fits_fields other
  same name hname := by
    rw [ofFields_of] at hname
    split at hname
    · cases hname
    · rw [get_other fields name ‹_›, get_other other name ‹_›]
  names := rfl

theorem run_together {text : List Char} {statements : List Statement} {known : Knowledge}
    (hread : Reading.statements? text = some statements)
    (hknown : learnAll? .ofFields statements = some known) (fields other : Fields) :
    Together (fun _ _ => True) (run fields.scope text) (run other.scope text) := by
  rw [run, run, hread]
  exact (runAll_together (relates_fields fields other) statements hknown).map fun _ _ _ => trivial

/-- A steady template is rendered for all fields, or fails alike for all of them. -/
theorem steady_render (h : isSteady template = true) (fields other : Fields) :
    Together (fun _ _ => True) (render fields template) (render other template) := by
  rw [render, render]
  split
  · refine Together.mapError ?_ (TemplateError.ofFailure template)
    rw [isSteady] at h
    cases hread : Reading.statements? (normalize template.toList) with
    | none =>
      rw [run, run, hread]
      rfl
    | some statements =>
      rw [hread] at h
      obtain ⟨known, hknown⟩ := Option.isSome_iff_exists.mp h
      exact run_together hread hknown fields other
  · trivial

/-- What the check of a steady template finds holds for all fields. -/
theorem steady_check (h : isSteady template = true) (fields : Fields) :
    (check template = .ok () → ∃ text, render fields template = .ok text) ∧
      ∀ reason, check template = .error reason → render fields template = .error reason := by
  have halike := steady_render h {} fields
  rw [check]
  cases hleft : render {} template <;> cases hright : render fields template <;>
    rw [hleft, hright] at halike
  · refine ⟨fun hok => (nomatch hok), fun reason hreason => ?_⟩
    cases hreason
    exact congrArg _ halike.symm
  · exact halike.elim
  · exact halike.elim
  · exact ⟨fun _ => ⟨_, rfl⟩, fun _ hreason => nomatch hreason⟩

end ClusterConfig.Template

namespace ClusterConfig

open Template (Fields isSteady isTemplate check render)
open Machine (synthesize fieldsOf)

/-- A valid cluster of one node with a template as its label. -/
def labelledCluster (template : String) : Cluster :=
  Compiler.smallCluster [{ Compiler.bareNode "cp" true with
    settings := { installDisk := some "/dev/sda", labels := [("x", template)] } }]

/-- A template whose branches print something on every node. -/
def roleTemplate : String :=
  "\x7b% if role == 'worker' %\x7dw\x7b% else %\x7dc\x7b% endif %\x7d-" ++
    "\x7b\x7b .hostname | lower \x7d\x7d"

/-- A template with a branch that no check takes. -/
def hiddenTemplate : String :=
  "\x7b% if hostname %\x7d\x7b\x7b bad \x7d\x7d\x7b% endif %\x7d"

end ClusterConfig
