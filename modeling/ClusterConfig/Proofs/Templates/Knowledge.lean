import Mathlib
import ClusterConfig.Template.Evaluation
import ClusterConfig.Proofs.Templates.Shapes

/-!
# What is known of names

A name has the same value for all fields, or a value of a known shape for all of them, or both, or
neither. Two runs of a template, for different fields, have scopes that agree on what is known.
-/

set_option autoImplicit false

namespace ClusterConfig.Template

variable {scopes left right : Scopes} {name other : String} {value : Value}

/-! ## Scopes -/

theorem lookup_cons_eq {α : Type} (label name : String) (a : α) (rest : List (String × α)) :
    ((label, a) :: rest).lookup name = if name = label then some a else rest.lookup name := by
  by_cases h : name = label
  · rw [h, List.lookup_cons_self, if_pos rfl]
  · rw [List.lookup_cons, beq_false_of_ne h, if_neg h]

namespace Scopes

/-- The names that stand in each scope. -/
def names (scopes : Scopes) : List (List String) := scopes.map fun scope => scope.map Prod.fst

theorem lookup_filter_ne (h : other ≠ name) (scope : List (String × Value)) :
    (scope.filter fun pair => pair.1 ≠ name).lookup other = scope.lookup other := by
  induction scope with
  | nil => rfl
  | cons pair scope ih =>
    by_cases hpair : pair.1 = name
    · rw [List.filter_cons_of_neg (by simpa using hpair), ih, lookup_cons_eq,
        if_neg (hpair ▸ h)]
    · rw [List.filter_cons_of_pos (by simpa using hpair), lookup_cons_eq, lookup_cons_eq, ih]

theorem get_set (scopes : Scopes) (name other : String) (value : Value) :
    (scopes.set name value).get other = if other = name then value else scopes.get other := by
  by_cases h : other = name
  · subst h
    cases scopes <;> simp [set, get]
  · cases scopes with
    | nil => simp [set, get, lookup_cons_eq, h]
    | cons scope rest =>
      rw [set, get, List.findSome?_cons, lookup_cons_eq, if_neg h, lookup_filter_ne h, if_neg h,
        get, List.findSome?_cons]

theorem names_set (h : left.names = right.names) (name : String) (value other : Value) :
    (left.set name value).names = (right.set name other).names := by
  have hfilter (scope : List (String × Value)) :
      ((scope.filter fun pair => pair.1 ≠ name).map Prod.fst) =
        (scope.map Prod.fst).filter fun label => label ≠ name := by
    rw [List.filter_map]
    rfl
  cases left with
  | nil =>
    obtain rfl := List.map_eq_nil_iff.mp h.symm
    rfl
  | cons scope rest =>
    cases right with
    | nil => cases h
    | cons scope' rest' =>
      obtain ⟨hscope, hrest⟩ := List.cons.inj h
      simp only [names, set, List.map_cons, hfilter, hscope]
      exact congrArg _ hrest

theorem names_push (h : left.names = right.names) : names ([] :: left) = names ([] :: right) :=
  congrArg (List.cons []) h

end Scopes

theorem isSome_lookup {α : Type} (scope : List (String × α)) (name : String) :
    (scope.lookup name).isSome = decide (name ∈ scope.map Prod.fst) := by
  induction scope with
  | nil => rfl
  | cons pair scope ih =>
    rw [lookup_cons_eq]
    by_cases h : name = pair.1 <;> simp [h, ih]

theorem loopDepth_eq (scopes : Scopes) :
    loopDepth scopes = scopes.names.countP fun scope => "loop" ∈ scope := by
  rw [loopDepth, Scopes.names, List.countP_map]
  exact List.countP_congr fun scope _ => by simp [isSome_lookup]

/-! ## Knowledge -/

/-- What is known of a value over all fields. -/
structure Known where
  /-- Whether it is the same for all of them. -/
  isFixed : Bool
  shape : Option Shape
deriving DecidableEq

namespace Known

def nothing : Known := ⟨false, none⟩

def fixed : Known := ⟨true, none⟩

def shaped (shape : Shape) : Known := ⟨false, some shape⟩

def isSomething (known : Known) : Bool := known.isFixed || known.shape.isSome

/-- The values of two runs agree on what is known. -/
def Relates (known : Known) (value other : Value) : Prop :=
  (known.isFixed = true → value = other) ∧
    ∀ shape, known.shape = some shape → shape.Holds value ∧ shape.Holds other

theorem relates_fixed (value : Value) : fixed.Relates value value :=
  ⟨fun _ => rfl, fun _ h => nomatch h⟩

theorem relates_shaped {shape : Shape} {value other : Value} (h : shape.Holds value)
    (h' : shape.Holds other) : (shaped shape).Relates value other :=
  ⟨fun hfixed => (nomatch hfixed), fun _ hs => Option.some.inj hs ▸ ⟨h, h'⟩⟩

/-- What is known of a value that is the one or the other. -/
def join (a b : Known) : Known :=
  ⟨a.isFixed && b.isFixed, if a.shape = b.shape then a.shape else none⟩

/-- Whether `b` says nothing that `a` does not say. -/
def covers (a b : Known) : Bool :=
  (a.isFixed || !b.isFixed) && (b.shape = none || a.shape = b.shape)

end Known

/-- What is known of names; the others are fixed. -/
abbrev Knowledge := List (String × Known)

namespace Knowledge

variable {k l : Knowledge} {known : Known}

def of (k : Knowledge) (name : String) : Known := (k.lookup name).getD .fixed

def set (k : Knowledge) (name : String) (known : Known) : Knowledge := (name, known) :: k

def setAll (k : Knowledge) (names : List String) (known : Known) : Knowledge :=
  names.foldl (fun k name => k.set name known) k

/-- Leaves nothing known of some names. -/
def forget (k : Knowledge) (names : List String) : Knowledge := k.setAll names .nothing

def names (k : Knowledge) : List String := k.map Prod.fst

/-- What is known after one of two ways. -/
def join (k l : Knowledge) : Knowledge :=
  (k.names ++ l.names).map fun name => (name, (k.of name).join (l.of name))

def covers (k l : Knowledge) : Bool :=
  (k.names ++ l.names).all fun name => (k.of name).covers (l.of name)

theorem of_set (k : Knowledge) (name other : String) (known : Known) :
    (k.set name known).of other = if other = name then known else k.of other := by
  rw [set, of, lookup_cons_eq]
  split <;> rfl

theorem of_setAll (k : Knowledge) (names : List String) (other : String) (known : Known) :
    (k.setAll names known).of other = if other ∈ names then known else k.of other := by
  induction names generalizing k with
  | nil => rfl
  | cons name names ih =>
    rw [setAll, List.foldl_cons, ← setAll, ih, of_set]
    by_cases hname : other = name <;> by_cases hmem : other ∈ names <;> simp [hname, hmem]

theorem of_forget {names : List String} (h : name ∈ names) (k : Knowledge) :
    (k.forget names).of name = .nothing := by
  rw [forget, of_setAll, if_pos h]

theorem of_eq_fixed (h : name ∉ k.names) : k.of name = .fixed := by
  have hnone : k.lookup name = none := by
    rw [List.lookup_eq_none_iff]
    intro pair hp
    simpa using fun hsame : name = pair.1 => h (hsame ▸ List.mem_map_of_mem hp)
  rw [of, hnone]
  rfl

theorem covers_of (h : k.covers l = true) (name : String) :
    (k.of name).covers (l.of name) = true := by
  by_cases hm : name ∈ k.names ++ l.names
  · exact List.all_eq_true.mp h name hm
  · obtain ⟨hk, hl⟩ := not_or.mp (mt List.mem_append.mpr hm)
    rw [of_eq_fixed hk, of_eq_fixed hl]
    rfl

theorem of_map (names : List String) (f : String → Known) (name : String) :
    Knowledge.of (names.map fun label => (label, f label)) name =
      if name ∈ names then f name else .fixed := by
  induction names with
  | nil => rfl
  | cons label names ih =>
    rw [List.map_cons, ← set, of_set, ih]
    by_cases hlabel : name = label <;> simp [hlabel]

theorem of_join (k l : Knowledge) (name : String) :
    (k.join l).of name = (k.of name).join (l.of name) := by
  rw [join, of_map _ fun label => (k.of label).join (l.of label)]
  split
  · rfl
  · rename_i hm
    obtain ⟨hk, hl⟩ := not_or.mp (mt List.mem_append.mpr hm)
    rw [of_eq_fixed hk, of_eq_fixed hl]
    rfl

/-! ## One run -/

/-- The values of names have the shapes that are known. -/
def Fits (k : Knowledge) (scopes : Scopes) : Prop :=
  ∀ name shape, (k.of name).shape = some shape → shape.Holds (scopes.get name)

namespace Fits

theorem set (h : k.Fits scopes) (name : String)
    (hv : ∀ shape, known.shape = some shape → shape.Holds value) :
    (k.set name known).Fits (scopes.set name value) := by
  intro other shape hshape
  rw [Knowledge.of_set] at hshape
  rw [Scopes.get_set]
  split at hshape
  · rw [if_pos ‹_›]
    exact hv shape hshape
  · rw [if_neg ‹_›]
    exact h other shape hshape

theorem push (h : k.Fits scopes) : k.Fits ([] :: scopes) := h

theorem forget (h : k.Fits scopes) (names : List String) : (k.forget names).Fits scopes := by
  intro name shape hshape
  rw [Knowledge.forget, of_setAll] at hshape
  split at hshape
  · cases hshape
  · exact h name shape hshape

/-- A name of which no shape is known may be set to any value. -/
theorem set_free (h : k.Fits scopes) (hname : (k.of name).shape = none) (value : Value) :
    k.Fits (scopes.set name value) := by
  intro other shape hshape
  rw [Scopes.get_set]
  split
  · rename_i hother
    cases hname.symm.trans (hother ▸ hshape)
  · exact h other shape hshape

theorem mono (h : k.Fits scopes) (hc : k.covers l = true) : l.Fits scopes := by
  intro name shape hshape
  refine h name shape ?_
  have hcovers := covers_of hc name
  simp only [Known.covers, Bool.and_eq_true, Bool.or_eq_true, decide_eq_true_eq, hshape] at hcovers
  exact hcovers.2.resolve_left (by simp)

end Fits

end Knowledge

/-! ## Two runs -/

/-- Two results are values that belong together, or the same failure. -/
def Together {ε α β : Type} (R : α → β → Prop) : Except ε α → Except ε β → Prop
  | .ok a, .ok b => R a b
  | .error e, .error e' => e = e'
  | _, _ => False

namespace Together

variable {ε α β γ δ : Type} {R R' : α → β → Prop} {S : γ → δ → Prop} {x : Except ε α}
  {y : Except ε β}

theorem bind {f : α → Except ε γ} {g : β → Except ε δ} (h : Together R x y)
    (hf : ∀ a b, R a b → Together S (f a) (g b)) : Together S (x >>= f) (y >>= g) := by
  cases x <;> cases y
  · exact h
  · exact h.elim
  · exact h.elim
  · exact hf _ _ h

theorem map {f : α → γ} {g : β → δ} (h : Together R x y) (hf : ∀ a b, R a b → S (f a) (g b)) :
    Together S (x.map f) (y.map g) := by
  cases x <;> cases y
  · exact h
  · exact h.elim
  · exact h.elim
  · exact hf _ _ h

theorem mapError {ε' : Type} (h : Together R x y) (f : ε → ε') :
    Together R (x.mapError f) (y.mapError f) := by
  cases x <;> cases y
  · exact congrArg f h
  · exact h.elim
  · exact h.elim
  · exact h

theorem mono (h : Together R x y) (hR : ∀ a b, R a b → R' a b) : Together R' x y := by
  cases x <;> cases y
  · exact h
  · exact h.elim
  · exact h.elim
  · exact hR _ _ h

theorem of_eq {x y : Except ε α} (h : x = y) : Together Eq x y := by
  subst h
  cases x <;> rfl

theorem of_ok {a : α} {b : β} (hx : x = .ok a) (hy : y = .ok b) (h : R a b) : Together R x y := by
  subst hx hy
  exact h

end Together

namespace Knowledge

variable {k l : Knowledge} {known : Known} {a b : Scopes}

/-- Two runs agree on what is known, and have the same names in the same scopes. -/
structure Relates (k : Knowledge) (a b : Scopes) : Prop where
  left : k.Fits a
  right : k.Fits b
  same : ∀ name, (k.of name).isFixed = true → a.get name = b.get name
  names : a.names = b.names

namespace Relates

theorem set {other : Value} (h : k.Relates a b) (name : String) (hv : known.Relates value other) :
    (k.set name known).Relates (a.set name value) (b.set name other) where
  left := h.left.set name fun shape hshape => (hv.2 shape hshape).1
  right := h.right.set name fun shape hshape => (hv.2 shape hshape).2
  same label hlabel := by
    rw [of_set] at hlabel
    rw [Scopes.get_set, Scopes.get_set]
    split at hlabel
    · rw [if_pos ‹_›, if_pos ‹_›]
      exact hv.1 hlabel
    · rw [if_neg ‹_›, if_neg ‹_›]
      exact h.same label hlabel
  names := Scopes.names_set h.names name value other

theorem push (h : k.Relates a b) : k.Relates ([] :: a) ([] :: b) :=
  ⟨h.left.push, h.right.push, h.same, Scopes.names_push h.names⟩

theorem forget (h : k.Relates a b) (names : List String) : (k.forget names).Relates a b where
  left := h.left.forget names
  right := h.right.forget names
  same name hname := by
    rw [Knowledge.forget, of_setAll] at hname
    split at hname
    · cases hname
    · exact h.same name hname
  names := h.names

theorem mono (h : k.Relates a b) (hc : k.covers l = true) : l.Relates a b where
  left := h.left.mono hc
  right := h.right.mono hc
  same name hname := by
    have hcovers := covers_of hc name
    simp only [Known.covers, Bool.and_eq_true, Bool.or_eq_true, hname] at hcovers
    exact h.same name (hcovers.1.resolve_right (by simp))
  names := h.names

theorem loopDepth_eq (h : k.Relates a b) : loopDepth a = loopDepth b := by
  rw [Template.loopDepth_eq, Template.loopDepth_eq, h.names]

end Relates

theorem covers_join_left (k l : Knowledge) : k.covers (k.join l) = true := by
  refine List.all_eq_true.mpr fun name _ => ?_
  rw [of_join, Known.join, Known.covers]
  split <;> cases (k.of name).isFixed <;> simp

theorem covers_join_right (k l : Knowledge) : l.covers (k.join l) = true := by
  refine List.all_eq_true.mpr fun name _ => ?_
  rw [of_join, Known.join, Known.covers]
  split
  · rename_i hshape
    cases (l.of name).isFixed <;> simp [hshape]
  · cases (l.of name).isFixed <;> simp

end Knowledge

/-! ## Targets -/

mutual

/-- The names that a target assigns. -/
def Target.names : Target → List String
  | .name label => [label]
  | .each targets => Target.namesOf targets

def Target.namesOf : List Target → List String
  | [] => []
  | target :: rest => target.names ++ Target.namesOf rest

end

mutual

/-- Assigning one value in two runs fixes the names of the target. -/
theorem Target.assign_together {k : Knowledge} {a b : Scopes} (h : k.Relates a b)
    (value : Value) : ∀ target : Target,
      Together (k.setAll target.names .fixed).Relates (target.assign a value)
        (target.assign b value)
  | .name label => h.set label (Known.relates_fixed value)
  | .each targets => by
    rw [Target.assign, Target.assign]
    cases value.items? with
    | none => rfl
    | some items => exact Target.assignEach_together h items targets

theorem Target.assignEach_together {k : Knowledge} {a b : Scopes} (h : k.Relates a b) :
    ∀ (values : List Value) (targets : List Target),
      Together (k.setAll (Target.namesOf targets) .fixed).Relates
        (Target.assignEach a values targets) (Target.assignEach b values targets)
  | [], [] => h
  | [], _ :: _ => rfl
  | _ :: _, [] => rfl
  | value :: values, target :: targets => by
    rw [Target.assignEach, Target.assignEach, Target.namesOf, Knowledge.setAll, List.foldl_append]
    exact (target.assign_together h value).bind fun _ _ hrelates =>
      Target.assignEach_together hrelates values targets

end

end ClusterConfig.Template
