import Mathlib
import ClusterConfig.Template.Builtins.Filters

/-!
# Shapes of values

What the operations of a template make of values of which only the shape is known. An operation has
a rule here if it never fails on values of the given shapes.
-/

set_option autoImplicit false

namespace ClusterConfig.Template

/-- What a value that is there may be known to be. -/
inductive Shape where
  | text
  | truth
  | count
  /-- Texts in a list, one at least. -/
  | texts
deriving DecidableEq

variable {shape source : Shape} {value other : Value} {name : String}

namespace Shape

def Holds : Shape → Value → Prop
  | .text, value => ∃ text, value = .str text
  | .truth, value => ∃ b, value = .bool b
  | .count, value => ∃ n, value = .int n
  | .texts, value => ∃ first rest, value = .list ((first :: rest).map .str)

/-- The shape of a constant. -/
def of? : Value → Option Shape
  | .str _ => some .text
  | .bool _ => some .truth
  | .int _ => some .count
  | _ => none

theorem holds_of (h : of? value = some shape) : shape.Holds value := by
  cases value <;> cases h <;> exact ⟨_, rfl⟩

namespace Holds

theorem there (h : shape.Holds value) : value.isUndefined = false :=
  match shape, value, h with
  | .text, _, ⟨_, rfl⟩ => rfl
  | .truth, _, ⟨_, rfl⟩ => rfl
  | .count, _, ⟨_, rfl⟩ => rfl
  | .texts, _, ⟨_, _, rfl⟩ => rfl

theorem printed (h : shape.Holds value) : value.printed = .ok value.shown := by
  cases value <;> first | rfl | cases h.there

theorem condition (h : shape.Holds value) : value.condition = .ok value.truth := by
  cases value <;> first | rfl | cases h.there

theorem asText (h : shape.Holds value) : value.asText = .ok value.shown := by
  cases value <;> first | rfl | cases h.there

/-- An argument with a shape is not left out. -/
theorem optional {α : Type} (h : shape.Holds value) (read : Value → Except Failure α) :
    Builtins.optional read (some value) = (read value).map some :=
  match shape, value, h with
  | .text, _, ⟨_, rfl⟩ => rfl
  | .truth, _, ⟨_, rfl⟩ => rfl
  | .count, _, ⟨_, rfl⟩ => rfl
  | .texts, _, ⟨_, _, rfl⟩ => rfl

end Holds

end Shape

/-- A result is a value of a shape. -/
def Yields (result : Except Failure Value) (shape : Shape) : Prop :=
  ∃ value, result = .ok value ∧ shape.Holds value

theorem yields_text (text : String) : Yields (.ok (.str text)) .text := ⟨_, rfl, _, rfl⟩

theorem yields_truth (b : Bool) : Yields (.ok (.bool b)) .truth := ⟨_, rfl, _, rfl⟩

theorem Shape.Holds.yields (h : shape.Holds value) : Yields (.ok value) shape := ⟨_, rfl, h⟩

/-! ## Operators -/

def BinaryOp.shape? : BinaryOp → Shape → Shape → Option Shape
  | .concat, _, _ => some .text
  | .comparison _, _, _ => some .truth
  | .contains, _, .text => some .truth
  | .contains, _, .texts => some .truth
  | .arithmetic .add, .text, .text => some .text
  | _, _, _ => none

theorem binary_yields {op : BinaryOp} {left right : Shape} (h : op.shape? left right = some shape)
    (hl : left.Holds value) (hr : right.Holds other) :
    Yields (Value.binary op value other) shape := by
  unfold BinaryOp.shape? at h
  split at h
  · cases h
    exact yields_text _
  · cases h
    exact yields_truth _
  · cases h
    obtain ⟨text, rfl⟩ := hr
    exact yields_truth _
  · cases h
    obtain ⟨first, rest, rfl⟩ := hr
    exact yields_truth _
  · cases h
    obtain ⟨s, rfl⟩ := hl
    obtain ⟨t, rfl⟩ := hr
    exact yields_text _
  · cases h

/-! ## Filters -/

namespace Builtins

/-- The filters that make a text of any text. -/
def textFilters : List String :=
  ["upper", "lower", "title", "capitalize", "trim", "escape", "e", "safe", "string"]

/-- The shape that a filter makes of a source, for arguments without names. -/
def filterShape? (name : String) (source : Shape) : List Shape → Option Shape
  | [] =>
    if name ∈ textFilters then some .text
    else if name ∈ ["default", "d"] then some source
    else if name ∈ ["length", "count"] ∧ source ∈ [.text, .texts] then some .count
    else if name ∈ ["first", "last", "join"] ∧ source = .texts then some .text
    else none
  | [_] =>
    if name ∈ ["default", "d"] then some source
    else if name = "trim" then some .text
    else if name = "split" then some .texts
    else if name = "join" ∧ source = .texts then some .text
    else none
  | [first, second] =>
    if name = "replace" then some .text
    else if name ∈ ["default", "d"] ∧ first = source ∧ second = .truth then some source
    else none
  | _ => none

theorem textFilter_yields (h : name ∈ textFilters) (hv : source.Holds value) :
    Yields (filter name value ⟨[], []⟩) .text := by
  have honText (change : List Char → List Char) :
      Yields (onText change value ⟨[], []⟩) .text := by
    rw [show onText change value ⟨[], []⟩ =
      (value.asText.bind fun text => .ok (.ofChars (change text.toList))) from rfl, hv.asText]
    exact yields_text _
  simp only [textFilters, List.mem_cons, List.not_mem_nil, or_false] at h
  rcases h with rfl | rfl | rfl | rfl | rfl | rfl | rfl | rfl | rfl
  · exact honText Text.upper
  · exact honText Text.lower
  · exact honText (titled true)
  · exact honText capitalized
  · exact honText Text.trimChars
  · exact honText fun text => (String.join (text.map escapedChar)).toList
  · exact honText fun text => (String.join (text.map escapedChar)).toList
  · exact honText id
  · exact yields_text _

/-- A value that is there stands for itself, unless it counts as false and that is asked for. -/
theorem orElse_yields (hv : source.Holds value) {values : List Value}
    (hvalues : values = [] ∨ (∃ other, values = [other]) ∨
      ∃ other flag, values = [other, .bool flag] ∧ source.Holds other) :
    Yields (filter.orElse value ⟨values, []⟩) source := by
  obtain rfl | ⟨other, rfl⟩ | ⟨other, flag, rfl, hother⟩ := hvalues
  · rw [show filter.orElse value ⟨[], []⟩ =
      if value.isUndefined || (false && !value.truth) then .ok (.str "") else .ok value from rfl,
      hv.there]
    exact hv.yields
  · rw [show filter.orElse value ⟨[other], []⟩ =
      if value.isUndefined || (false && !value.truth) then .ok other else .ok value from rfl,
      hv.there]
    exact hv.yields
  · rw [show filter.orElse value ⟨[other, .bool flag], []⟩ =
      if value.isUndefined || (flag && !value.truth) then .ok other else .ok value from rfl]
    split
    · exact hother.yields
    · exact hv.yields

theorem default_yields (h : name ∈ ["default", "d"]) {arguments : Arguments}
    (hv : Yields (filter.orElse value arguments) source) :
    Yields (filter name value arguments) source := by
  obtain rfl | h := List.mem_cons.mp h
  · exact hv
  · obtain rfl := List.mem_singleton.mp h
    exact hv

theorem lengthOf_yields (h : source ∈ [Shape.text, .texts]) (hv : source.Holds value) :
    Yields (lengthOf value) .count := by
  obtain rfl | h := List.mem_cons.mp h
  · obtain ⟨text, rfl⟩ := hv
    exact ⟨_, rfl, _, rfl⟩
  · obtain rfl := List.mem_singleton.mp h
    obtain ⟨first, rest, rfl⟩ := hv
    exact ⟨_, rfl, _, rfl⟩

/-- The ends of texts, and the texts in one. -/
theorem item_yields (h : name ∈ ["first", "last", "join"]) (hv : Shape.texts.Holds value) :
    Yields (filter name value ⟨[], []⟩) .text := by
  obtain ⟨first, rest, rfl⟩ := hv
  simp only [List.mem_cons, List.not_mem_nil, or_false] at h
  rcases h with rfl | rfl | rfl
  · exact yields_text first
  · refine ⟨.str ((first :: rest).getLast (List.cons_ne_nil _ _)), ?_, _, rfl⟩
    rw [show filter "last" (.list ((first :: rest).map .str)) ⟨[], []⟩ =
      .ok (firstOr ((first :: rest).map Value.str).getLast?) from rfl, List.getLast?_map,
      List.getLast?_eq_getLast_of_ne_nil (List.cons_ne_nil _ _)]
    rfl
  · exact ⟨_, rfl, _, rfl⟩

theorem splitParts_ne_nil (separator text : List Char) (most : Nat) :
    splitParts separator most text ≠ [] := by
  cases most with
  | zero => exact List.cons_ne_nil _ _
  | succ most =>
    rw [splitParts]
    split <;> exact List.cons_ne_nil _ _

theorem split_holds (text separator : String) :
    Shape.texts.Holds (split text (some separator) none) := by
  obtain ⟨part, parts, hparts⟩ : ∃ part parts, split text (some separator) none =
      .list ((part :: parts).map .ofChars) := by
    simp only [split]
    split
    · exact ⟨_, _, rfl⟩
    · obtain ⟨part, parts, hparts⟩ := List.exists_cons_of_ne_nil
        (splitParts_ne_nil separator.toList text.toList (text.toList.length + 1))
      exact ⟨part, parts, by rw [hparts]⟩
  refine ⟨String.ofList part, parts.map String.ofList, ?_⟩
  rw [hparts, List.map_cons, List.map_cons, List.map_map]
  rfl

theorem filter_alone_yields (h : filterShape? name source [] = some shape)
    (hv : source.Holds value) :
    Yields (filter name value ⟨[], []⟩) shape := by
  rw [filterShape?] at h
  split at h
  · cases h
    exact textFilter_yields ‹_› hv
  split at h
  · cases h
    exact default_yields ‹_› (orElse_yields hv (.inl rfl))
  split at h
  · cases h
    obtain ⟨hname, hsource⟩ := ‹_ ∧ _›
    have hlength := lengthOf_yields hsource hv
    simp only [List.mem_cons, List.not_mem_nil, or_false] at hname
    rcases hname with rfl | rfl <;> exact hlength
  split at h
  · cases h
    obtain ⟨hname, rfl⟩ := ‹_ ∧ _›
    exact item_yields hname hv
  · cases h

theorem filter_one_yields {argument : Shape} (h : filterShape? name source [argument] = some shape)
    (hv : source.Holds value) (ha : argument.Holds other) :
    Yields (filter name value ⟨[other], []⟩) shape := by
  rw [filterShape?] at h
  split at h
  · cases h
    exact default_yields ‹_› (orElse_yields hv (.inr (.inl ⟨other, rfl⟩)))
  split at h
  · subst name
    cases h
    have hmarks : Builtins.optional Value.asText [other][0]? = .ok (some other.shown) := by
      rw [List.getElem?_cons_zero, ha.optional, ha.asText]
      rfl
    simp only [filter, hv.asText]
    change Yields (Builtins.optional Value.asText [other][0]? >>= _) _
    rw [hmarks]
    exact yields_text _
  split at h
  · subst name
    cases h
    rw [show filter "split" value ⟨[other], []⟩ = (do
      let text ← value.asText
      let separator ← optional Value.asText (some other)
      return split text separator none) from rfl, hv.asText, ha.optional, ha.asText]
    exact (split_holds _ _).yields
  split at h
  · obtain ⟨rfl, rfl⟩ := ‹_ ∧ _›
    cases h
    obtain ⟨first, rest, rfl⟩ := hv
    rw [show filter "join" (.list ((first :: rest).map .str)) ⟨[other], []⟩ = (do
      let separator ← optional Value.asText (some other)
      return .str (joined (separator.getD "") (((first :: rest).map Value.str).map Value.shown)))
      from rfl, ha.optional, ha.asText]
    exact yields_text _
  · cases h

theorem filter_two_yields {argument more : Shape} {old new : Value}
    (h : filterShape? name source [argument, more] = some shape) (hv : source.Holds value)
    (hold : argument.Holds old) (hnew : more.Holds new) :
    Yields (filter name value ⟨[old, new], []⟩) shape := by
  rw [filterShape?] at h
  split at h
  · subst name
    cases h
    rw [show filter "replace" value ⟨[old, new], []⟩ = (do
      let text ← value.asText
      let old ← old.asText
      return .ofChars (Text.replaceAll old.toList (← new.asText).toList text.toList)) from rfl,
      hv.asText, hold.asText, hnew.asText]
    exact yields_text _
  split at h
  · cases h
    obtain ⟨hname, rfl, rfl⟩ := ‹_ ∧ _ ∧ _›
    obtain ⟨flag, rfl⟩ := hnew
    exact default_yields hname (orElse_yields hv (.inr (.inr ⟨old, flag, rfl, hold⟩)))
  · cases h

/-- A filter that has a rule for the shapes of its source and its arguments never fails on them. -/
theorem filter_yields {arguments : List Shape} {values : List Value}
    (h : filterShape? name source arguments = some shape) (hv : source.Holds value)
    (ha : List.Forall₂ Shape.Holds arguments values) :
    Yields (filter name value ⟨values, []⟩) shape := by
  match arguments, values, ha with
  | [], [], .nil => exact filter_alone_yields h hv
  | [_], [_], .cons hother .nil => exact filter_one_yields h hv hother
  | [_, _], [_, _], .cons hold (.cons hnew .nil) => exact filter_two_yields h hv hold hnew
  | _ :: _ :: _ :: _, _, _ => cases h

/-! ## Tests -/

/-- The tests that ask for a property of any value. -/
def propertyTests : List String :=
  ["defined", "undefined", "none", "boolean", "true", "false", "number", "integer", "int", "float",
    "string", "sequence", "mapping", "iterable", "safe", "escaped", "odd", "even"]

/-- The tests that compare any value with another. -/
def comparisonTests : List String :=
  ["startingwith", "endingwith", "eq", "equalto", "sameas", "ne", "lt", "lessthan", "le", "gt",
    "greaterthan", "ge"]

/-- Whether a test never fails on a value, for arguments without names. -/
def testFits (name : String) (source : Shape) : List Shape → Bool
  | [] => name ∈ propertyTests || (name ∈ ["lower", "upper"] && source = .text)
  | [argument] => name ∈ comparisonTests || (name = "in" && argument ∈ [.text, .texts])
  | _ => false

theorem propertyTest_ok (h : name ∈ propertyTests) (value : Value) :
    ∃ b, test name value ⟨[], []⟩ = .ok b := by
  simp only [propertyTests, List.mem_cons, List.not_mem_nil, or_false] at h
  rcases h with rfl | rfl | rfl | rfl | rfl | rfl | rfl | rfl | rfl | rfl | rfl | rfl | rfl | rfl |
    rfl | rfl | rfl | rfl <;> exact ⟨_, rfl⟩

theorem comparisonTest_ok {argument : Shape} (h : name ∈ comparisonTests) (hv : source.Holds value)
    (ha : argument.Holds other) : ∃ b, test name value ⟨[other], []⟩ = .ok b := by
  simp only [comparisonTests, List.mem_cons, List.not_mem_nil, or_false] at h
  rcases h with rfl | rfl | rfl | rfl | rfl | rfl | rfl | rfl | rfl | rfl | rfl | rfl
  · rw [show test "startingwith" value ⟨[other], []⟩ = (do
      let start := (← other.asText).toList
      return (Text.afterStart? start (← value.asText).toList).isSome) from rfl, hv.asText,
      ha.asText]
    exact ⟨_, rfl⟩
  · rw [show test "endingwith" value ⟨[other], []⟩ = (do
      let ending := (← other.asText).toList
      return (Text.beforeEnd? ending (← value.asText).toList).isSome) from rfl, hv.asText,
      ha.asText]
    exact ⟨_, rfl⟩
  all_goals exact ⟨_, rfl⟩

theorem test_ok {arguments : List Shape} {values : List Value}
    (h : testFits name source arguments = true) (hv : source.Holds value)
    (ha : List.Forall₂ Shape.Holds arguments values) :
    ∃ b, test name value ⟨values, []⟩ = .ok b := by
  unfold testFits at h
  split at h
  · cases ha
    simp only [Bool.or_eq_true, Bool.and_eq_true, decide_eq_true_eq] at h
    obtain h | ⟨hname, rfl⟩ := h
    · exact propertyTest_ok h value
    · obtain ⟨text, rfl⟩ := hv
      simp only [List.mem_cons, List.not_mem_nil, or_false] at hname
      rcases hname with rfl | rfl <;> exact ⟨_, rfl⟩
  · obtain _ | @⟨_, argument, _, _, hargument, ⟨⟩⟩ := ha
    simp only [Bool.or_eq_true, Bool.and_eq_true, decide_eq_true_eq] at h
    obtain h | ⟨rfl, hshape⟩ := h
    · exact comparisonTest_ok h hv hargument
    · simp only [List.mem_cons, List.not_mem_nil, or_false] at hshape
      rcases hshape with rfl | rfl
      · obtain ⟨text, rfl⟩ := hargument
        exact ⟨_, rfl⟩
      · obtain ⟨first, rest, rfl⟩ := hargument
        exact ⟨_, rfl⟩
  · cases h

end Builtins
end ClusterConfig.Template
