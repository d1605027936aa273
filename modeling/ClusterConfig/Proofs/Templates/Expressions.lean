import Mathlib
import ClusterConfig.Proofs.Templates.Knowledge

/-!
# Expressions over all fields

An expression that reads fixed names only has the same result in two runs, be it a value or a
failure. An expression that is made from known shapes by operations that never fail has a value in
each run, though not the same one.
-/

set_option autoImplicit false

namespace ClusterConfig.Template

variable {k : Knowledge} {scopes a b : Scopes}

/-! ## Fixed expressions -/

mutual

/-- Whether an expression reads fixed names only. -/
def Expr.isFixed (k : Knowledge) : Expr → Bool
  | .constant _ => true
  | .variable name => (k.of name).isFixed
  | .list items => areFixed k items
  | .mapping members => membersFixed k members
  | .attribute source _ => source.isFixed k
  | .item source key => source.isFixed k && key.isFixed k
  | .slice source start stop step =>
    source.isFixed k && start.isFixed k && stop.isFixed k && step.isFixed k
  | .call name arguments named =>
    (k.of name).isFixed && areFixed k arguments && namedFixed k named
  | .method source _ arguments named =>
    source.isFixed k && areFixed k arguments && namedFixed k named
  | .callValue source arguments named =>
    source.isFixed k && areFixed k arguments && namedFixed k named
  | .filter source _ arguments named =>
    source.isFixed k && areFixed k arguments && namedFixed k named
  | .test source _ arguments named =>
    source.isFixed k && areFixed k arguments && namedFixed k named
  | .not operand => operand.isFixed k
  | .negate operand => operand.isFixed k
  | .and left right => left.isFixed k && right.isFixed k
  | .or left right => left.isFixed k && right.isFixed k
  | .binary _ left right => left.isFixed k && right.isFixed k
  | .choose condition yes no => condition.isFixed k && yes.isFixed k && no.isFixed k

def areFixed (k : Knowledge) : List Expr → Bool
  | [] => true
  | item :: rest => item.isFixed k && areFixed k rest

def membersFixed (k : Knowledge) : List (Expr × Expr) → Bool
  | [] => true
  | (key, value) :: rest => key.isFixed k && value.isFixed k && membersFixed k rest

def namedFixed (k : Knowledge) : List (String × Expr) → Bool
  | [] => true
  | (_, value) :: rest => value.isFixed k && namedFixed k rest

end

mutual

/-- A fixed expression has the same result in two runs. -/
theorem Expr.eval_fixed (h : k.Relates a b) :
    ∀ e : Expr, e.isFixed k = true → e.eval a = e.eval b
  | .constant _, _ => rfl
  | .variable name, hf => by
    rw [Expr.eval, Expr.eval, h.same name hf]
  | .list items, hf => by
    rw [Expr.eval, Expr.eval, evalItems_fixed h items hf]
  | .mapping members, hf => by
    rw [Expr.eval, Expr.eval, evalMembers_fixed h members hf]
  | .attribute source name, hf => by
    rw [Expr.eval, Expr.eval, source.eval_fixed h hf]
  | .item source key, hf => by
    obtain ⟨hs, hk⟩ := Bool.and_eq_true_iff.mp hf
    rw [Expr.eval, Expr.eval, source.eval_fixed h hs, key.eval_fixed h hk]
  | .slice source start stop step, hf => by
    simp only [Expr.isFixed, Bool.and_eq_true] at hf
    obtain ⟨⟨⟨hs, hstart⟩, hstop⟩, hstep⟩ := hf
    rw [Expr.eval, Expr.eval, source.eval_fixed h hs, start.eval_fixed h hstart,
      stop.eval_fixed h hstop, step.eval_fixed h hstep]
  | .call name arguments named, hf => by
    simp only [Expr.isFixed, Bool.and_eq_true] at hf
    obtain ⟨⟨hname, ha⟩, hn⟩ := hf
    rw [Expr.eval, Expr.eval, h.same name hname, evalItems_fixed h arguments ha,
      evalNamed_fixed h named hn]
  | .method source name arguments named, hf => by
    simp only [Expr.isFixed, Bool.and_eq_true] at hf
    obtain ⟨⟨hs, ha⟩, hn⟩ := hf
    rw [Expr.eval, Expr.eval, source.eval_fixed h hs, evalItems_fixed h arguments ha,
      evalNamed_fixed h named hn]
  | .callValue source arguments named, hf => by
    simp only [Expr.isFixed, Bool.and_eq_true] at hf
    obtain ⟨⟨hs, ha⟩, hn⟩ := hf
    rw [Expr.eval, Expr.eval, source.eval_fixed h hs, evalItems_fixed h arguments ha,
      evalNamed_fixed h named hn]
  | .filter source name arguments named, hf => by
    simp only [Expr.isFixed, Bool.and_eq_true] at hf
    obtain ⟨⟨hs, ha⟩, hn⟩ := hf
    rw [Expr.eval, Expr.eval, source.eval_fixed h hs, evalItems_fixed h arguments ha,
      evalNamed_fixed h named hn]
  | .test source name arguments named, hf => by
    simp only [Expr.isFixed, Bool.and_eq_true] at hf
    obtain ⟨⟨hs, ha⟩, hn⟩ := hf
    rw [Expr.eval, Expr.eval, source.eval_fixed h hs, evalItems_fixed h arguments ha,
      evalNamed_fixed h named hn]
  | .not operand, hf => by
    rw [Expr.eval, Expr.eval, operand.eval_fixed h hf]
  | .negate operand, hf => by
    rw [Expr.eval, Expr.eval, operand.eval_fixed h hf]
  | .and left right, hf => by
    obtain ⟨hl, hr⟩ := Bool.and_eq_true_iff.mp hf
    rw [Expr.eval, Expr.eval, left.eval_fixed h hl, right.eval_fixed h hr]
  | .or left right, hf => by
    obtain ⟨hl, hr⟩ := Bool.and_eq_true_iff.mp hf
    rw [Expr.eval, Expr.eval, left.eval_fixed h hl, right.eval_fixed h hr]
  | .binary op left right, hf => by
    obtain ⟨hl, hr⟩ := Bool.and_eq_true_iff.mp hf
    rw [Expr.eval, Expr.eval, left.eval_fixed h hl, right.eval_fixed h hr]
  | .choose condition yes no, hf => by
    simp only [Expr.isFixed, Bool.and_eq_true] at hf
    obtain ⟨⟨hc, hy⟩, hn⟩ := hf
    rw [Expr.eval, Expr.eval, condition.eval_fixed h hc, yes.eval_fixed h hy, no.eval_fixed h hn]

theorem evalItems_fixed (h : k.Relates a b) :
    ∀ items : List Expr, areFixed k items = true → evalItems a items = evalItems b items
  | [], _ => rfl
  | item :: rest, hf => by
    obtain ⟨hitem, hrest⟩ := Bool.and_eq_true_iff.mp hf
    rw [evalItems, evalItems, item.eval_fixed h hitem, evalItems_fixed h rest hrest]

theorem evalMembers_fixed (h : k.Relates a b) :
    ∀ members : List (Expr × Expr), membersFixed k members = true →
      evalMembers a members = evalMembers b members
  | [], _ => rfl
  | (key, value) :: rest, hf => by
    simp only [membersFixed, Bool.and_eq_true] at hf
    obtain ⟨⟨hk, hv⟩, hrest⟩ := hf
    rw [evalMembers, evalMembers, key.eval_fixed h hk, value.eval_fixed h hv,
      evalMembers_fixed h rest hrest]

theorem evalNamed_fixed (h : k.Relates a b) :
    ∀ named : List (String × Expr), namedFixed k named = true →
      evalNamed a named = evalNamed b named
  | [], _ => rfl
  | (_, value) :: rest, hf => by
    obtain ⟨hv, hrest⟩ := Bool.and_eq_true_iff.mp hf
    rw [evalNamed, evalNamed, value.eval_fixed h hv, evalNamed_fixed h rest hrest]

end

/-! ## Expressions of a known shape -/

/-- A bound of a slice that never fails: a whole number, or none. -/
def isBound : Expr → Bool
  | .constant .absent => true
  | .constant (.int _) => true
  | _ => false

/-- The steps of a slice that never fail: whole numbers other than zero, or none. -/
def isStep : Expr → Bool
  | .constant .absent => true
  | .constant (.int n) => n ≠ 0
  | _ => false

/-- The key of the first item. -/
def isFirst : Expr → Bool
  | .constant (.int n) => n = 0
  | _ => false

mutual

/-- The shape of the values of an expression, if it never fails on what is known. -/
def Expr.shape? (k : Knowledge) : Expr → Option Shape
  | .constant value => Shape.of? value
  | .variable name => (k.of name).shape
  | .list items =>
    match shapes? k items with
    | some (.text :: rest) => if ∀ shape ∈ rest, shape = .text then some .texts else none
    | _ => none
  | .item source key => if source.shape? k = some .texts ∧ isFirst key then some .text else none
  | .slice source start stop step =>
    if source.shape? k = some .text ∧ isBound start ∧ isBound stop ∧ isStep step then some .text
    else none
  | .filter source name arguments named => do
    let shape ← Builtins.filterShape? name (← source.shape? k) (← shapes? k arguments)
    if named.isEmpty then some shape else none
  | .test source name arguments named => do
    let fits := Builtins.testFits name (← source.shape? k) (← shapes? k arguments)
    if fits ∧ named.isEmpty then some .truth else none
  | .not operand => (operand.shape? k).map fun _ => .truth
  | .and left right => do
    let shape ← left.shape? k
    if right.shape? k = some shape then some shape else none
  | .or left right => do
    let shape ← left.shape? k
    if right.shape? k = some shape then some shape else none
  | .binary op left right => do op.shape? (← left.shape? k) (← right.shape? k)
  | .choose condition yes no => do
    let _ ← condition.shape? k
    let shape ← yes.shape? k
    if no.shape? k = some shape then some shape else none
  | _ => none

def shapes? (k : Knowledge) : List Expr → Option (List Shape)
  | [] => some []
  | item :: rest => do
    let shape ← item.shape? k
    return shape :: (← shapes? k rest)

end

theorem slice_yields {source start stop step : Value} (hs : Shape.text.Holds source)
    (hstart : ∃ n, Value.bound? start = .ok n) (hstop : ∃ n, Value.bound? stop = .ok n)
    (hstep : ∃ n, Value.bound? step = .ok n ∧ n.getD 1 ≠ 0) :
    Yields (source.slice start stop step) .text := by
  obtain ⟨text, rfl⟩ := hs
  obtain ⟨first, hstart⟩ := hstart
  obtain ⟨last, hstop⟩ := hstop
  obtain ⟨n, hstep, hn⟩ := hstep
  simp only [Value.slice, hstart, hstop, hstep, bind, Except.bind, if_neg hn]
  exact yields_text _

theorem isBound_eval {e : Expr} (h : isBound e = true) (scopes : Scopes) :
    ∃ value n, e.eval scopes = .ok value ∧ Value.bound? value = .ok n := by
  unfold isBound at h
  split at h
  · exact ⟨_, _, rfl, rfl⟩
  · exact ⟨_, _, rfl, rfl⟩
  · cases h

theorem isStep_eval {e : Expr} (h : isStep e = true) (scopes : Scopes) :
    ∃ value n, e.eval scopes = .ok value ∧ Value.bound? value = .ok n ∧ n.getD 1 ≠ 0 := by
  unfold isStep at h
  split at h
  · exact ⟨_, _, rfl, rfl, by decide⟩
  · exact ⟨_, _, rfl, rfl, by simpa using h⟩
  · cases h

theorem texts_of_holds {values : List Value} {shapes : List Shape}
    (h : ∀ shape ∈ shapes, shape = .text) (hv : List.Forall₂ Shape.Holds shapes values) :
    ∃ texts : List String, values = texts.map .str := by
  induction hv with
  | nil => exact ⟨[], rfl⟩
  | cons hvalue _ ih =>
    obtain ⟨rfl, hrest⟩ := List.forall_mem_cons.mp h
    obtain ⟨text, rfl⟩ := hvalue
    obtain ⟨texts, rfl⟩ := ih hrest
    exact ⟨text :: texts, rfl⟩

theorem isFirst_eval {e : Expr} (h : isFirst e = true) (scopes : Scopes) :
    e.eval scopes = .ok (.int 0) := by
  unfold isFirst at h
  split at h
  · obtain rfl := of_decide_eq_true h
    rfl
  · cases h

/-! ### What the parts of an expression yield -/

section Parts

variable {shape other : Shape} {source left right condition yes no : Expr} {name : String}
  {arguments : List Expr} {values : List Value} {shapes : List Shape}

theorem Yields.first_item {key : Expr} (h : Yields (source.eval scopes) .texts)
    (hkey : isFirst key = true) : Yields ((Expr.item source key).eval scopes) .text := by
  obtain ⟨value, hvalue, first, rest, rfl⟩ := h
  rw [Expr.eval, hvalue, isFirst_eval hkey]
  exact yields_text first

theorem Yields.part {start stop step : Expr} (h : Yields (source.eval scopes) .text)
    (hstart : isBound start = true) (hstop : isBound stop = true) (hstep : isStep step = true) :
    Yields ((Expr.slice source start stop step).eval scopes) .text := by
  obtain ⟨value, hvalue, hholds⟩ := h
  obtain ⟨first, n, hfirst, hn⟩ := isBound_eval hstart scopes
  obtain ⟨last, m, hlast, hm⟩ := isBound_eval hstop scopes
  obtain ⟨every, i, hevery, hi⟩ := isStep_eval hstep scopes
  rw [Expr.eval, hvalue, hfirst, hlast, hevery]
  exact slice_yields hholds ⟨n, hn⟩ ⟨m, hm⟩ ⟨i, hi⟩

theorem Yields.filtered (h : Yields (source.eval scopes) other)
    (hvalues : evalItems scopes arguments = .ok values) (hall : List.Forall₂ Shape.Holds shapes values)
    (hfilter : Builtins.filterShape? name other shapes = some shape) :
    Yields ((Expr.filter source name arguments []).eval scopes) shape := by
  obtain ⟨value, hvalue, hholds⟩ := h
  rw [Expr.eval, hvalue, hvalues]
  exact Builtins.filter_yields hfilter hholds hall

theorem Yields.tested (h : Yields (source.eval scopes) other)
    (hvalues : evalItems scopes arguments = .ok values) (hall : List.Forall₂ Shape.Holds shapes values)
    (hfits : Builtins.testFits name other shapes = true) :
    Yields ((Expr.test source name arguments []).eval scopes) .truth := by
  obtain ⟨value, hvalue, hholds⟩ := h
  obtain ⟨result, hresult⟩ := Builtins.test_ok hfits hholds hall
  rw [Expr.eval, hvalue, hvalues]
  simp only [evalNamed, bind, Except.bind, hresult]
  exact yields_truth _

theorem Yields.not (h : Yields (source.eval scopes) other) :
    Yields ((Expr.not source).eval scopes) .truth := by
  obtain ⟨value, hvalue, hholds⟩ := h
  rw [Expr.eval, hvalue]
  simp only [bind, Except.bind, hholds.condition]
  exact yields_truth _

theorem Yields.and (hl : Yields (left.eval scopes) shape) (hr : Yields (right.eval scopes) shape) :
    Yields ((Expr.and left right).eval scopes) shape := by
  obtain ⟨value, hvalue, hholds⟩ := hl
  rw [Expr.eval, hvalue]
  simp only [bind, Except.bind, hholds.condition]
  split
  · exact hr
  · exact hholds.yields

theorem Yields.or (hl : Yields (left.eval scopes) shape) (hr : Yields (right.eval scopes) shape) :
    Yields ((Expr.or left right).eval scopes) shape := by
  obtain ⟨value, hvalue, hholds⟩ := hl
  rw [Expr.eval, hvalue]
  simp only [bind, Except.bind, hholds.condition]
  split
  · exact hholds.yields
  · exact hr

theorem Yields.binary {op : BinaryOp} {leftShape rightShape : Shape}
    (hl : Yields (left.eval scopes) leftShape) (hr : Yields (right.eval scopes) rightShape)
    (h : op.shape? leftShape rightShape = some shape) :
    Yields ((Expr.binary op left right).eval scopes) shape := by
  obtain ⟨value, hvalue, hholds⟩ := hl
  obtain ⟨second, hsecond, hholds'⟩ := hr
  rw [Expr.eval, hvalue, hsecond]
  exact binary_yields h hholds hholds'

theorem Yields.choose (hc : Yields (condition.eval scopes) other) (hy : Yields (yes.eval scopes) shape)
    (hn : Yields (no.eval scopes) shape) :
    Yields ((Expr.choose condition yes no).eval scopes) shape := by
  obtain ⟨value, hvalue, hholds⟩ := hc
  rw [Expr.eval, hvalue]
  simp only [bind, Except.bind, hholds.condition]
  split
  · exact hy
  · exact hn

/-- Two parts have one shape. -/
theorem agree_eq_some {first second : Option Shape} :
    (first.bind fun found => if second = some found then some found else none) = some shape ↔
      first = some shape ∧ second = some shape := by
  rw [Option.bind_eq_some_iff]
  constructor
  · rintro ⟨found, hfirst, h⟩
    rw [Option.ite_none_right_eq_some] at h
    obtain ⟨hsecond, heq⟩ := h
    obtain rfl := Option.some.inj heq
    exact ⟨hfirst, hsecond⟩
  · rintro ⟨hfirst, hsecond⟩
    exact ⟨shape, hfirst, if_pos hsecond⟩

end Parts

mutual

/-- An expression of a known shape has a value of it. -/
theorem Expr.eval_yields (h : k.Fits scopes) :
    ∀ (e : Expr) {shape : Shape}, e.shape? k = some shape → Yields (e.eval scopes) shape
  | .constant value, _, hs => ⟨value, rfl, Shape.holds_of hs⟩
  | .variable name, shape, hs => ⟨_, rfl, h name shape hs⟩
  | .list items, shape, hs => by
    rw [Expr.shape?] at hs
    split at hs
    · rename_i rest hshapes
      rw [Option.ite_none_right_eq_some] at hs
      obtain ⟨htexts, hs⟩ := hs
      cases hs
      obtain ⟨values, hvalues, _ | ⟨⟨first, rfl⟩, hrest⟩⟩ := evalItems_yields h items hshapes
      obtain ⟨texts, rfl⟩ := texts_of_holds htexts hrest
      rw [Expr.eval, hvalues]
      exact ⟨_, rfl, first, texts, rfl⟩
    · cases hs
  | .item source key, shape, hs => by
    rw [Expr.shape?, Option.ite_none_right_eq_some] at hs
    obtain ⟨⟨hsource, hkey⟩, hs⟩ := hs
    cases hs
    exact (source.eval_yields h hsource).first_item hkey
  | .slice source start stop step, shape, hs => by
    rw [Expr.shape?, Option.ite_none_right_eq_some] at hs
    obtain ⟨⟨hsource, hstart, hstop, hstep⟩, hs⟩ := hs
    cases hs
    exact (source.eval_yields h hsource).part hstart hstop hstep
  | .filter source name arguments named, shape, hs => by
    simp only [Expr.shape?, Option.bind_eq_bind, Option.bind_eq_some_iff,
      Option.ite_none_right_eq_some] at hs
    obtain ⟨sourceShape, hsource, shapes, harguments, shape', hfilter, hnamed, hs⟩ := hs
    cases hs
    obtain rfl := List.isEmpty_iff.mp hnamed
    obtain ⟨values, hvalues, hall⟩ := evalItems_yields h arguments harguments
    exact (source.eval_yields h hsource).filtered hvalues hall hfilter
  | .test source name arguments named, shape, hs => by
    simp only [Expr.shape?, Option.bind_eq_bind, Option.bind_eq_some_iff,
      Option.ite_none_right_eq_some] at hs
    obtain ⟨sourceShape, hsource, shapes, harguments, ⟨hfits, hnamed⟩, hs⟩ := hs
    cases hs
    obtain rfl := List.isEmpty_iff.mp hnamed
    obtain ⟨values, hvalues, hall⟩ := evalItems_yields h arguments harguments
    exact (source.eval_yields h hsource).tested hvalues hall hfits
  | .not operand, shape, hs => by
    rw [Expr.shape?, Option.map_eq_some_iff] at hs
    obtain ⟨operandShape, hoperand, rfl⟩ := hs
    exact (operand.eval_yields h hoperand).not
  | .and left right, shape, hs => by
    rw [Expr.shape?] at hs
    obtain ⟨hleft, hright⟩ := agree_eq_some.mp hs
    exact (left.eval_yields h hleft).and (right.eval_yields h hright)
  | .or left right, shape, hs => by
    rw [Expr.shape?] at hs
    obtain ⟨hleft, hright⟩ := agree_eq_some.mp hs
    exact (left.eval_yields h hleft).or (right.eval_yields h hright)
  | .binary op left right, shape, hs => by
    simp only [Expr.shape?, Option.bind_eq_bind, Option.bind_eq_some_iff] at hs
    obtain ⟨leftShape, hleft, rightShape, hright, hs⟩ := hs
    exact (left.eval_yields h hleft).binary (right.eval_yields h hright) hs
  | .choose condition yes no, shape, hs => by
    rw [Expr.shape?, Option.bind_eq_bind, Option.bind_eq_some_iff] at hs
    obtain ⟨conditionShape, hcondition, hs⟩ := hs
    obtain ⟨hyes, hno⟩ := agree_eq_some.mp hs
    exact (condition.eval_yields h hcondition).choose (yes.eval_yields h hyes) (no.eval_yields h hno)
  | .mapping _, _, hs => nomatch hs
  | .attribute _ _, _, hs => nomatch hs
  | .call _ _ _, _, hs => nomatch hs
  | .method _ _ _ _, _, hs => nomatch hs
  | .callValue _ _ _, _, hs => nomatch hs
  | .negate _, _, hs => nomatch hs

theorem evalItems_yields (h : k.Fits scopes) :
    ∀ (items : List Expr) {shapes : List Shape}, shapes? k items = some shapes →
      ∃ values, evalItems scopes items = .ok values ∧ List.Forall₂ Shape.Holds shapes values
  | [], _, hs => by
    cases hs
    exact ⟨[], rfl, .nil⟩
  | item :: rest, _, hs => by
    simp only [shapes?, Option.bind_eq_bind, Option.bind_eq_some_iff] at hs
    obtain ⟨shape, hitem, shapes, hrest, hs⟩ := hs
    cases hs
    obtain ⟨value, hvalue, hholds⟩ := item.eval_yields h hitem
    obtain ⟨values, hvalues, hall⟩ := evalItems_yields h rest hrest
    rw [evalItems, hvalue, hvalues]
    exact ⟨value :: values, rfl, .cons hholds hall⟩

end

/-! ## What is known of an expression -/

/-- What is known of the value of an expression. -/
def Expr.known (k : Knowledge) (e : Expr) : Known := ⟨e.isFixed k, e.shape? k⟩

/-- An expression of which something is known has values in both runs that agree on it, or fails in
both alike. -/
theorem Expr.eval_together (h : k.Relates a b) (e : Expr) (hk : (e.known k).isSomething = true) :
    Together (e.known k).Relates (e.eval a) (e.eval b) := by
  cases hshape : e.shape? k with
  | none =>
    have hfixed : e.isFixed k = true := by
      simpa [Known.isSomething, Expr.known, hshape] using hk
    refine (Together.of_eq (e.eval_fixed h hfixed)).mono fun value other hsame => ?_
    refine ⟨fun _ => hsame, fun shape hs => ?_⟩
    cases hshape.symm.trans hs
  | some shape =>
    obtain ⟨value, hvalue, hholds⟩ := e.eval_yields h.left hshape
    obtain ⟨other, hother, hholds'⟩ := e.eval_yields h.right hshape
    refine .of_ok hvalue hother ⟨fun hfixed => ?_, fun shape' hs => ?_⟩
    · rw [e.eval_fixed h hfixed, hother] at hvalue
      exact (Except.ok.inj hvalue).symm
    · cases hshape.symm.trans hs
      exact ⟨hholds, hholds'⟩

end ClusterConfig.Template
