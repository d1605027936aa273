import Mathlib
import ClusterConfig.Proofs.Validation.Kinds

/-!
# Conflicts of interfaces

An interface that is a member of two aggregates is found though only the first aggregate of each
member is noted. The invariant of the search is that every membership passed so far has its member
noted, with an aggregate that lists it, and that a conflict was reported exactly if two of these
memberships are in conflict.
-/

set_option autoImplicit false

namespace ClusterConfig.Validation

/-- A member and an aggregate that lists it. -/
abbrev Membership := Aggregate × String

variable {joined : List Membership} {aggregate : Aggregate} {member : String} {place : Place}
  {state : Memberships × List Issue} {p : Prop}

/-! ## Memberships in conflict -/

/-- Two aggregates list one member. -/
def Contested (joined : List Membership) : Prop :=
  ∃ member first second, first ≠ second ∧ (first, member) ∈ joined ∧ (second, member) ∈ joined

theorem not_contested_nil : ¬ Contested [] := by
  rintro ⟨member, first, second, -, hm, -⟩
  cases hm

theorem contested_concat : Contested (joined ++ [(aggregate, member)]) ↔
    Contested joined ∨ ∃ other, other ≠ aggregate ∧ (other, member) ∈ joined := by
  simp only [Contested, List.mem_append, List.mem_singleton, Prod.mk.injEq]
  constructor
  · rintro ⟨shared, first, second, hne, hfirst | ⟨rfl, rfl⟩, hsecond | ⟨rfl, hmember⟩⟩
    · exact .inl ⟨shared, first, second, hne, hfirst, hsecond⟩
    · exact .inr ⟨first, hne, hmember ▸ hfirst⟩
    · exact .inr ⟨second, hne.symm, hsecond⟩
    · exact absurd rfl hne
  · rintro (⟨shared, first, second, hne, hfirst, hsecond⟩ | ⟨other, hne, hother⟩)
    · exact ⟨shared, first, second, hne, .inl hfirst, .inl hsecond⟩
    · exact ⟨member, other, aggregate, hne, .inl hother, .inr ⟨rfl, rfl⟩⟩

/-! ## The search -/

/-- An interface that is in conflict by itself. -/
def IsBoth (interface : Interface) : Prop :=
  interface.bond.isSome = true ∧ interface.bridge.isSome = true

theorem ofKind_bothAggregates_eq_nil {interface : Interface} {index : Nat} :
    ofKind .interfaceConflict (bothAggregates place interface index) = [] ↔ ¬ IsBoth interface := by
  rw [bothAggregates, IsBoth, ← Bool.and_eq_true]
  split <;> simp [ofKind, *]

/-- The memberships that aggregates list. -/
def memberships (listed : List (Aggregate × List String)) : List Membership :=
  listed.flatMap fun (aggregate, members) => members.map fun member => (aggregate, member)

/-- The memberships of all interfaces, in the order of the search. -/
def allMemberships (interfaces : List (Interface × Nat)) : List Membership :=
  interfaces.flatMap fun (interface, index) => memberships (Interface.aggregates interface index)

/-- The search of one interface at its place in the list. -/
def checkInterface (place : Place) (state : Memberships × List Issue) (item : Interface × Nat) :
    Memberships × List Issue :=
  let own := interfaceIssues (place.index item.2) item.1 ++
    bothAggregates (place.index item.2) item.1 item.2
  (Interface.aggregates item.1 item.2).foldl (joinMembers (place.index item.2))
    (state.1, state.2 ++ own)

theorem checkInterfaces_eq (place : Place) (interfaces : List Interface) :
    checkInterfaces place interfaces =
      (interfaces.zipIdx.foldl (checkInterface place) ([], [])).2 := rfl

theorem lookup_concat {claims : Memberships} (hl : claims.lookup member = none) (other : String) :
    (claims ++ [(member, aggregate)]).lookup other =
      if other = member then some aggregate else claims.lookup other := by
  rw [List.lookup_append]
  split
  · rename_i hsame
    simp [hsame, hl]
  · rename_i hne
    simp [List.lookup_cons, beq_eq_false_iff_ne.mpr hne]

/-- The state of the search behind the memberships `joined`, where `p` tells whether one of the
interfaces is in conflict by itself. -/
structure Walked (joined : List Membership) (p : Prop) (state : Memberships × List Issue) :
    Prop where
  noted : ∀ member aggregate, state.1.lookup member = some aggregate →
    (aggregate, member) ∈ joined
  none_missed : ∀ member aggregate, state.1.lookup member = none → (aggregate, member) ∉ joined
  found_iff : ofKind .interfaceConflict state.2 ≠ [] ↔ p ∨ Contested joined

namespace Walked

theorem start : Walked [] False ([], []) :=
  ⟨by simp, by simp, by simp [ofKind, not_contested_nil]⟩

/-- A member is noted when it is met for the first time. -/
theorem fresh (h : Walked joined p state) (hl : state.1.lookup member = none)
    (aggregate : Aggregate) :
    Walked (joined ++ [(aggregate, member)]) p (state.1 ++ [(member, aggregate)], state.2) where
  noted other first ho := by
    rw [lookup_concat hl] at ho
    split at ho
    · rename_i hsame
      cases ho
      exact List.mem_append_right _ (List.mem_singleton.mpr (by rw [hsame]))
    · exact List.mem_append_left _ (h.noted other first ho)
  none_missed other first ho := by
    rw [lookup_concat hl] at ho
    split at ho
    · cases ho
    · rename_i hother
      simp [h.none_missed other first ho, hother]
  found_iff := by
    have hnone : ¬ ∃ other, other ≠ aggregate ∧ (other, member) ∈ joined := by
      rintro ⟨other, -, hother⟩
      exact h.none_missed member other hl hother
    simp only [h.found_iff, contested_concat, hnone, or_false]

/-- A member that is noted stays so, and it is in conflict if the aggregate is another one. If it is
the same one, nothing new is in conflict: what this membership contests the noted one does. -/
theorem listed {previous : Aggregate} {issues : List Issue} (h : Walked joined p state)
    (hl : state.1.lookup member = some previous)
    (hi : ofKind .interfaceConflict issues ≠ [] ↔
      ofKind .interfaceConflict state.2 ≠ [] ∨ previous ≠ aggregate) :
    Walked (joined ++ [(aggregate, member)]) p (state.1, issues) where
  noted other first ho := List.mem_append_left _ (h.noted other first ho)
  none_missed other first ho := by
    have hother : other ≠ member := by
      rintro rfl
      rw [hl] at ho
      cases ho
    simp [h.none_missed other first ho, hother]
  found_iff := by
    have hm := h.noted member previous hl
    rw [hi, h.found_iff, contested_concat, or_assoc]
    refine or_congr_right ⟨fun hc => hc.imp_right fun hne => ⟨previous, hne, hm⟩, ?_⟩
    rintro (hc | ⟨other, hne, hother⟩)
    · exact .inl hc
    · by_cases hsame : previous = aggregate
      · exact .inl ⟨member, other, previous, hsame ▸ hne, hother, hm⟩
      · exact .inr hsame

theorem joinMember (h : Walked joined p state) (place : Place) (aggregate : Aggregate)
    (member : String) :
    Walked (joined ++ [(aggregate, member)]) p
      (Validation.joinMember place aggregate state member) := by
  rw [Validation.joinMember]
  cases hl : state.1.lookup member with
  | none => exact h.fresh hl aggregate
  | some previous =>
    dsimp only
    split
    · rename_i hsame
      exact h.listed hl (by simp [hsame])
    · rename_i hne
      exact h.listed hl (by simp [ofKind, hne])

theorem joinMembers (h : Walked joined p state) (place : Place)
    (listed : Aggregate × List String) :
    Walked (joined ++ listed.2.map fun member => (listed.1, member)) p
      (Validation.joinMembers place state listed) := by
  obtain ⟨aggregate, members⟩ := listed
  rw [Validation.joinMembers]
  induction members generalizing joined state with
  | nil => simpa using h
  | cons member rest ih =>
    rw [List.foldl_cons, List.map_cons, List.append_cons]
    exact ih (h.joinMember _ aggregate member)

theorem aggregates (h : Walked joined p state) (place : Place)
    (listed : List (Aggregate × List String)) :
    Walked (joined ++ memberships listed) p (listed.foldl (Validation.joinMembers place) state) := by
  induction listed generalizing joined state with
  | nil => simpa [memberships] using h
  | cons first rest ih =>
    rw [List.foldl_cons, memberships, List.flatMap_cons, ← List.append_assoc]
    exact ih (h.joinMembers place first)

/-- The issues of an interface itself tell whether it is both a bond and a bridge. -/
theorem own (h : Walked joined p state) (place : Place) (interface : Interface) (index : Nat) :
    Walked joined (p ∨ IsBoth interface)
      (state.1, state.2 ++ (interfaceIssues place interface ++
        bothAggregates place interface index)) where
  noted := h.noted
  none_missed := h.none_missed
  found_iff := by
    rw [ofKind_append, ofKind_append, interfaceIssues_kinds.ofKind_eq_nil (by decide),
      List.nil_append, ne_eq, List.append_eq_nil_iff, not_and_or, ← ne_eq, h.found_iff,
      ofKind_bothAggregates_eq_nil, not_not]
    tauto

theorem interfaces (h : Walked joined p state) (place : Place) (interfaces : List Interface)
    (start : Nat) :
    Walked (joined ++ allMemberships (interfaces.zipIdx start))
      (p ∨ ∃ interface ∈ interfaces, IsBoth interface)
      ((interfaces.zipIdx start).foldl (checkInterface place) state) := by
  induction interfaces generalizing joined state start p with
  | nil => simpa [allMemberships] using h
  | cons interface rest ih =>
    have hfirst := (h.own (place.index start) interface start).aggregates (place.index start)
      (Interface.aggregates interface start)
    have hrest := ih hfirst (start + 1)
    simpa [allMemberships, checkInterface, or_assoc] using hrest

end Walked

/-! ## What is found -/

/-- An interface that an aggregate of one of the interfaces lists among its members. -/
inductive IsMember (interfaces : List Interface) : Aggregate → String → Prop where
  | ofBond {index : Nat} {interface : Interface} {bond : Bond} {member : String}
      (hi : interfaces[index]? = some interface) (hb : interface.bond = some bond)
      (hm : member ∈ bond.interfaces) :
      IsMember interfaces ⟨.bond, interface.displayName index⟩ member
  | ofBridge {index : Nat} {interface : Interface} {bridge : Bridge} {member : String}
      (hi : interfaces[index]? = some interface) (hb : interface.bridge = some bridge)
      (hm : member ∈ bridge.interfaces) :
      IsMember interfaces ⟨.bridge, interface.displayName index⟩ member

theorem mem_allMemberships {interfaces : List Interface} :
    (aggregate, member) ∈ allMemberships interfaces.zipIdx ↔
      IsMember interfaces aggregate member := by
  simp only [allMemberships, memberships, Interface.aggregates, List.mem_flatMap, Prod.exists,
    List.mem_zipIdx_iff_getElem?, List.mem_append, List.mem_map, Option.mem_toList]
  constructor
  · rintro ⟨interface, index, hi, owner, members,
      ⟨bond, hb, hpair⟩ | ⟨bridge, hb, hpair⟩, found, hm, hfound⟩
    · cases hpair
      cases hfound
      exact .ofBond hi hb hm
    · cases hpair
      cases hfound
      exact .ofBridge hi hb hm
  · rintro (⟨hi, hb, hm⟩ | ⟨hi, hb, hm⟩)
    · exact ⟨_, _, hi, _, _, .inl ⟨_, hb, rfl⟩, _, hm, rfl⟩
    · exact ⟨_, _, hi, _, _, .inr ⟨_, hb, rfl⟩, _, hm, rfl⟩

theorem conflict_of_interfaces (place : Place) (interfaces : List Interface) :
    ofKind .interfaceConflict (checkInterfaces place interfaces) ≠ [] ↔
      (∃ interface ∈ interfaces, IsBoth interface) ∨
      ∃ member first second, first ≠ second ∧
        IsMember interfaces first member ∧ IsMember interfaces second member := by
  have h := (Walked.start.interfaces place interfaces 0).found_iff
  rw [← checkInterfaces_eq] at h
  simpa only [false_or, List.nil_append, Contested, mem_allMemberships] using h

/-- Only the interfaces are searched for conflicts. -/
theorem conflicts_of_settings (settings : Settings) (place : Place) :
    ofKind .interfaceConflict (checkSettings settings place) =
      ofKind .interfaceConflict
        (checkInterfaces (place.field "networkInterfaces") settings.interfaces) := by
  rw [ofKind_checkSettings (by decide), checkModules_kinds.ofKind_eq_nil (by decide),
    checkVolumes_kinds.ofKind_eq_nil (by decide), checkExtensions_kinds.ofKind_eq_nil (by decide),
    List.append_nil, List.append_nil, List.append_nil]

/-- Settings have a conflict exactly if an interface is both a bond and a bridge, or two aggregates
list one member; these differ in kind or in the name of their owner. -/
theorem interface_conflicts_found (settings : Settings) (place : Place) :
    (∃ issue ∈ (Report.ofIssues (checkSettings settings place)).errors,
        issue.kind = .interfaceConflict) ↔
      (∃ interface ∈ settings.interfaces,
        interface.bond.isSome = true ∧ interface.bridge.isSome = true) ∨
      ∃ member first second, first ≠ second ∧ IsMember settings.interfaces first member ∧
        IsMember settings.interfaces second member := by
  rw [← ofKind_ne_nil, ofKind_errors rfl, conflicts_of_settings]
  exact conflict_of_interfaces _ settings.interfaces

end ClusterConfig.Validation
