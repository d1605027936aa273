import Mathlib
import ClusterConfig.Json.Path
import ClusterConfig.Proofs.Documents.Unordered

/-!
# Values under paths of names

What is set under a path of names is found there, and whatever stands under a path that parts from
it stays. What is found in a well-formed document is well formed.

A change is confined to some paths if whatever stands apart from them is as it was, and what stands
above one of them is as it was or an object now. Setting and removing are confined to their path,
and of changes one after the other each may have paths of its own.
-/

set_option autoImplicit false

namespace ClusterConfig.Json

section Values

variable {path other : List String} {name : String} {doc value : Json}

/-- Two paths lead apart: neither goes on where the other ends. -/
def Apart : List String → List String → Prop
  | a :: path, b :: other => a ≠ b ∨ Apart path other
  | _, _ => False

instance decidableApart : (path other : List String) → Decidable (Apart path other)
  | a :: path, b :: other =>
    have := decidableApart path other
    inferInstanceAs (Decidable (a ≠ b ∨ Apart path other))
  | [], _ => isFalse id
  | _ :: _, [] => isFalse id

theorem getPath?_cons (doc : Json) (name : String) (rest : List String) :
    doc.getPath? (name :: rest) = (doc.get? name).bind fun child => child.getPath? rest := rfl

theorem getPath?_append (doc : Json) (path rest : List String) :
    doc.getPath? (path ++ rest) = (doc.getPath? path).bind fun child => child.getPath? rest := by
  induction path generalizing doc with
  | nil => rfl
  | cons name path ih =>
    rw [List.cons_append, getPath?_cons, getPath?_cons]
    cases doc.get? name with
    | none => rfl
    | some child => exact ih child

theorem getPath?_concat (doc : Json) (path : List String) (name : String) :
    doc.getPath? (path ++ [name]) = (doc.getPath? path).bind fun child => child.get? name := by
  rw [getPath?_append]
  refine congrArg _ (funext fun child => ?_)
  rw [getPath?_cons]
  cases child.get? name <;> rfl

/-! ## Well-formed documents -/

theorem WellFormed.keys_nodup (h : doc.WellFormed) : (Members.keys doc.members).Nodup := by
  cases doc with
  | obj members => exact (wellFormed_obj.mp h).1
  | _ => exact List.nodup_nil

theorem get?_wellFormed (h : doc.WellFormed) (hv : doc.get? name = some value) :
    value.WellFormed := by
  cases doc with
  | obj members => exact (wellFormed_obj.mp h).2 _ (Members.mem_of_get? hv)
  | _ => cases hv

theorem getPath?_wellFormed (h : doc.WellFormed) (hv : doc.getPath? path = some value) :
    value.WellFormed := by
  induction path generalizing doc with
  | nil => exact Option.some.inj hv ▸ h
  | cons name rest ih =>
    obtain ⟨child, hc, hv⟩ := Option.bind_eq_some_iff.mp hv
    exact ih (get?_wellFormed h hc) hv

/-! ## Setting -/

theorem setAt_cons (doc : Json) (name : String) (rest : List String) (value : Json) :
    doc.setAt (name :: rest) value =
      .obj (Members.put doc.members name (setAt ((doc.get? name).getD .null) rest value)) := by
  cases doc <;> rfl

theorem getPath?_setAt_same (doc : Json) (path : List String) (value : Json) :
    (doc.setAt path value).getPath? path = some value := by
  induction path generalizing doc with
  | nil => cases doc <;> rfl
  | cons name rest ih =>
    rw [setAt_cons, getPath?_cons, get?, members, Members.get?_put_same, Option.bind_some, ih]

theorem getPath?_null (hne : other ≠ []) : null.getPath? other = none := by
  cases other with
  | nil => exact absurd rfl hne
  | cons name rest => rfl

theorem getPath?_setAt_apart (h : Apart path other) (doc value : Json) :
    (doc.setAt path value).getPath? other = doc.getPath? other := by
  induction path generalizing doc other with
  | nil => cases h
  | cons name rest ih =>
    cases other with
    | nil => cases h
    | cons next more =>
      rw [setAt_cons, getPath?_cons, getPath?_cons, get?, members]
      by_cases hname : next = name
      · subst hname
        have hrest : Apart rest more := h.resolve_left fun hne => hne rfl
        rw [Members.get?_put_same, Option.bind_some, ih hrest]
        cases hchild : doc.get? next with
        | some child => rfl
        | none =>
          refine getPath?_null ?_
          rintro rfl
          cases rest <;> cases hrest
      · rw [Members.get?_put_other _ _ hname]
        rfl

end Values

section Changes

variable {name : String} {path other rest : List String} {paths more : List (List String)}
  {doc before between after value : Json}

/-- All that differs stands at one of the paths or below; above them there are objects. -/
structure ChangedOnlyAt (paths : List (List String)) (before after : Json) : Prop where
  elsewhere : ∀ path, (∀ changed ∈ paths, Apart changed path) →
    after.getPath? path = before.getPath? path
  above : ∀ path, (∀ changed ∈ paths, ¬ changed <+: path) →
    after.getPath? path = before.getPath? path ∨
      ∃ members, after.getPath? path = some (.obj members)

namespace ChangedOnlyAt

theorem refl (paths : List (List String)) (doc : Json) : ChangedOnlyAt paths doc doc :=
  ⟨fun _ _ => rfl, fun _ _ => .inl rfl⟩

theorem trans (h : ChangedOnlyAt paths before between) (h' : ChangedOnlyAt paths between after) :
    ChangedOnlyAt paths before after where
  elsewhere path hp := (h'.elsewhere path hp).trans (h.elsewhere path hp)
  above path hp := by
    obtain hsame | hobject := h'.above path hp
    · rw [hsame]
      exact h.above path hp
    · exact .inr hobject

theorem mono (h : ChangedOnlyAt paths before after) (hsub : paths ⊆ more) :
    ChangedOnlyAt more before after where
  elsewhere path hp := h.elsewhere path fun changed hm => hp changed (hsub hm)
  above path hp := h.above path fun changed hm => hp changed (hsub hm)

theorem append (h : ChangedOnlyAt paths before between) (h' : ChangedOnlyAt more between after) :
    ChangedOnlyAt (paths ++ more) before after :=
  (h.mono (List.subset_append_left _ _)).trans (h'.mono (List.subset_append_right _ _))

end ChangedOnlyAt

/-! ## Setting -/

/-- What stands above the path that is set becomes an object. -/
theorem getPath?_setAt_above (h : ¬ path <+: other) (doc value : Json) :
    (doc.setAt path value).getPath? other = doc.getPath? other ∨
      ∃ members, (doc.setAt path value).getPath? other = some (.obj members) := by
  induction path generalizing doc other with
  | nil => exact absurd List.nil_prefix h
  | cons name rest ih =>
    rw [setAt_cons]
    cases other with
    | nil => exact .inr ⟨_, rfl⟩
    | cons next more =>
      rw [getPath?_cons, getPath?_cons, get?, members]
      by_cases hname : next = name
      · subst hname
        have hrest : ¬ rest <+: more := fun hp => h (List.cons_prefix_cons.mpr ⟨rfl, hp⟩)
        rw [Members.get?_put_same, Option.bind_some]
        cases hchild : doc.get? next with
        | some child => exact ih hrest child
        | none =>
          -- nothing was there, so what is there now was made above the rest of the path
          obtain hsame | hobject := ih hrest null
          · cases more with
            | nil =>
              cases rest with
              | nil => exact absurd List.nil_prefix hrest
              | cons first rest => exact .inr ⟨_, rfl⟩
            | cons first more => exact .inl hsame
          · exact .inr hobject
      · rw [Members.get?_put_other _ _ hname]
        exact .inl rfl

theorem changedOnlyAt_setAt (doc : Json) (path : List String) (value : Json) :
    ChangedOnlyAt [path] doc (doc.setAt path value) where
  elsewhere _ h := getPath?_setAt_apart (h path List.mem_cons_self) doc value
  above _ h := getPath?_setAt_above (h path List.mem_cons_self) doc value

theorem setAt_wellFormed (hd : doc.WellFormed) (hv : value.WellFormed) (path : List String) :
    (doc.setAt path value).WellFormed := by
  induction path generalizing doc with
  | nil => cases doc <;> exact hv
  | cons name rest ih =>
    have hchild : ((doc.get? name).getD .null).WellFormed := by
      cases hc : doc.get? name with
      | none => trivial
      | some child => exact get?_wellFormed hd hc
    rw [setAt_cons]
    refine wellFormed_obj.mpr ⟨Members.nodup_put hd.keys_nodup name _, fun entry hm => ?_⟩
    obtain hm | hentry := Members.mem_put hm
    · exact get?_wellFormed hd (Members.get?_of_mem hd.keys_nodup hm)
    · exact hentry ▸ ih hchild

/-! ## Removing -/

theorem removeAt_of_none (h : doc.get? name = none) : doc.removeAt (name :: rest) = doc := by
  cases doc with
  | obj members =>
    have hnone : Members.get? members name = none := h
    cases rest with
    | nil => rw [removeAt, Members.remove_eq_self hnone]
    | cons next more =>
      rw [removeAt, hnone]
      simp
  | _ => cases rest <;> rfl

theorem removeAt_of_some {child : Json} (h : doc.get? name = some child) :
    doc.removeAt (name :: rest) = .obj (Members.update doc.members name
      (if rest = [] then none else some (child.removeAt rest))) := by
  cases doc with
  | obj members =>
    have hsome : Members.get? members name = some child := h
    cases rest with
    | nil => rfl
    | cons next more =>
      rw [removeAt, hsome]
      · rfl
      · simp
  | _ => cases h

/-- What stands above the path that is removed stays an object. -/
theorem getPath?_removeAt (hd : doc.WellFormed) (h : ¬ path <+: other) :
    (doc.removeAt path).getPath? other = doc.getPath? other ∨
      other <+: path ∧ ∃ members, (doc.removeAt path).getPath? other = some (.obj members) := by
  induction path generalizing doc other with
  | nil => exact absurd List.nil_prefix h
  | cons name rest ih =>
    cases hchild : doc.get? name with
    | none => exact .inl (by rw [removeAt_of_none hchild])
    | some child =>
      rw [removeAt_of_some hchild]
      cases other with
      | nil => exact .inr (.intro List.nil_prefix ⟨_, rfl⟩)
      | cons next more =>
        rw [getPath?_cons, getPath?_cons, get?, members, Members.get?_update hd.keys_nodup]
        by_cases hname : next = name
        · subst hname
          have hrest : ¬ rest <+: more := fun hp => h (List.cons_prefix_cons.mpr ⟨rfl, hp⟩)
          have hne : rest ≠ [] := fun hnil => hrest (hnil ▸ List.nil_prefix)
          rw [if_pos rfl, if_neg hne, hchild, Option.bind_some, Option.bind_some]
          obtain hsame | ⟨habove, hobject⟩ := ih (get?_wellFormed hd hchild) hrest
          · exact .inl hsame
          · exact .inr ⟨List.cons_prefix_cons.mpr ⟨rfl, habove⟩, hobject⟩
        · rw [if_neg hname]
          exact .inl rfl

/-- Nothing is left at the path that is removed. -/
theorem getPath?_removeAt_same (hd : doc.WellFormed) (hne : path ≠ []) :
    (doc.removeAt path).getPath? path = none := by
  induction path generalizing doc with
  | nil => exact absurd rfl hne
  | cons name rest ih =>
    cases hchild : doc.get? name with
    | none => rw [removeAt_of_none hchild, getPath?_cons, hchild, Option.bind_none]
    | some child =>
      rw [removeAt_of_some hchild, getPath?_cons, get?, members,
        Members.get?_update hd.keys_nodup, if_pos rfl]
      split
      · rfl
      · rename_i hrest
        exact ih (get?_wellFormed hd hchild) hrest

theorem Apart.neither_above (h : Apart path other) : ¬ path <+: other ∧ ¬ other <+: path := by
  induction path generalizing other with
  | nil => cases h
  | cons name rest ih =>
    cases other with
    | nil => cases h
    | cons next more =>
      rw [List.cons_prefix_cons, List.cons_prefix_cons]
      obtain hname | hrest := h
      · exact ⟨fun hp => hname hp.1, fun hp => hname hp.1.symm⟩
      · exact ⟨fun hp => (ih hrest).1 hp.2, fun hp => (ih hrest).2 hp.2⟩

theorem changedOnlyAt_removeAt (hd : doc.WellFormed) (path : List String) :
    ChangedOnlyAt [path] doc (doc.removeAt path) where
  elsewhere other h := by
    obtain ⟨hpath, hother⟩ := (h path List.mem_cons_self).neither_above
    exact (getPath?_removeAt hd hpath).resolve_right fun hp => hother hp.1
  above other h := (getPath?_removeAt hd (h path List.mem_cons_self)).imp_right And.right

end Changes

/-! ## Laws of setting and removing -/

section Laws

variable {path other : List String} {doc : Json}

theorem apart_iff : Apart path other ↔ ¬ path <+: other ∧ ¬ other <+: path := by
  refine ⟨Apart.neither_above, fun h => ?_⟩
  induction path generalizing other with
  | nil => exact absurd List.nil_prefix h.1
  | cons name rest ih =>
    cases other with
    | nil => exact absurd List.nil_prefix h.2
    | cons next more =>
      rw [List.cons_prefix_cons, List.cons_prefix_cons] at h
      by_cases hname : name = next
      · exact .inr (ih ⟨fun hp => h.1 ⟨hname, hp⟩, fun hp => h.2 ⟨hname.symm, hp⟩⟩)
      · exact .inl hname

theorem setAt_setAt (doc : Json) (path : List String) (value next : Json) :
    (doc.setAt path value).setAt path next = doc.setAt path next := by
  induction path generalizing doc with
  | nil => cases doc <;> cases value <;> rfl
  | cons name rest ih =>
    have hchild : (obj (Members.put doc.members name
        (setAt ((doc.get? name).getD .null) rest value))).get? name =
          some (setAt ((doc.get? name).getD .null) rest value) := Members.get?_put_same ..
    rw [setAt_cons, setAt_cons, setAt_cons, hchild, Option.getD_some, ih, members,
      Members.put_put]

theorem removeAt_of_absent (hne : path ≠ []) (h : doc.getPath? path = none) :
    doc.removeAt path = doc := by
  induction path generalizing doc with
  | nil => exact absurd rfl hne
  | cons name rest ih =>
    cases hchild : doc.get? name with
    | none => exact removeAt_of_none hchild
    | some child =>
      rw [getPath?_cons, hchild, Option.bind_some] at h
      have hrest : rest ≠ [] := by
        rintro rfl
        cases h
      rw [removeAt_of_some hchild, if_neg hrest, ih hrest h]
      cases doc with
      | obj members => exact congrArg Json.obj (Members.put_get? hchild)
      | _ => cases hchild

/-! Pointers lead through arrays too, which setting replaces. -/

theorem at?_setAt_same (doc : Json) (path : List String) (value : Json) :
    (doc.setAt path value).at? path = some value := by
  induction path generalizing doc with
  | nil => cases doc <;> rfl
  | cons name rest ih =>
    rw [setAt_cons, at?_cons, child?, Members.get?_put_same, Option.bind_some, ih]

/-- Above a path that is set into nothing there is nothing else. -/
theorem at?_setAt_null (h : Apart path other) (value : Json) :
    (null.setAt path value).at? other = none := by
  induction path generalizing other with
  | nil => cases h
  | cons name rest ih =>
    cases other with
    | nil => cases h
    | cons next more =>
      rw [setAt_cons, at?_cons, child?, Members.get?_put]
      by_cases hname : next = name
      · rw [if_pos hname]
        exact ih (h.resolve_left fun hne => hne hname.symm)
      · rw [if_neg hname]
        rfl

/-- What stands above both paths has to be an object, since anything else is replaced by one. -/
theorem at?_setAt_apart (h : Apart path other)
    (hobjects : ∀ above found, above <+: path → above ≠ path → above <+: other →
      doc.at? above = some found → found.isObject = true) (value : Json) :
    (doc.setAt path value).at? other = doc.at? other := by
  induction path generalizing doc other with
  | nil => cases h
  | cons name rest ih =>
    cases other with
    | nil => cases h
    | cons next more =>
      have hroot := hobjects [] doc List.nil_prefix (List.cons_ne_nil _ _).symm List.nil_prefix rfl
      cases doc with
      | obj members =>
        rw [setAt_cons, at?_cons, at?_cons, child?, child?, Members.get?_put]
        by_cases hname : next = name
        · subst hname
          have hrest : Apart rest more := h.resolve_left fun hne => hne rfl
          rw [if_pos rfl, Option.bind_some]
          cases hchild : Members.get? members next with
          | none => rw [get?, Json.members, hchild]; exact at?_setAt_null hrest value
          | some child =>
            rw [get?, Json.members, hchild]
            refine ih hrest fun above found hpath hne hother hfound => ?_
            refine hobjects (next :: above) found (List.cons_prefix_cons.mpr ⟨rfl, hpath⟩)
              (fun hsame => hne (List.cons.inj hsame).2) (List.cons_prefix_cons.mpr ⟨rfl, hother⟩) ?_
            rw [at?_cons, child?, hchild]
            exact hfound
        · rw [if_neg hname]
          rfl
      | _ => cases hroot

/-- What is set is read, the last value that is set at a path stands there, and what stands apart
from the path stays, read by a pointer only if no array above both paths is replaced. What is
removed is not read, what stands apart stays, and removing nothing changes nothing. -/
theorem setAt_and_removeAt_laws (hd : doc.WellFormed) (hp : path ≠ []) (other : List String)
    (value next : Json) :
    (doc.setAt path value).getPath? path = some value ∧
      (doc.setAt path value).at? path = some value ∧
      (doc.setAt path value).setAt path next = doc.setAt path next ∧
      (doc.removeAt path).getPath? path = none ∧
      (doc.getPath? path = none → doc.removeAt path = doc) ∧
      (¬ path <+: other → ¬ other <+: path →
        (doc.setAt path value).getPath? other = doc.getPath? other ∧
        (doc.removeAt path).getPath? other = doc.getPath? other ∧
        ((∀ above found, above <+: path → above ≠ path → above <+: other →
            doc.at? above = some found → found.isObject = true) →
          (doc.setAt path value).at? other = doc.at? other)) := by
  refine ⟨getPath?_setAt_same doc path value, at?_setAt_same doc path value,
    setAt_setAt doc path value next, getPath?_removeAt_same hd hp, removeAt_of_absent hp,
    fun hpath hother => ?_⟩
  have hapart := apart_iff.mpr ⟨hpath, hother⟩
  have hremoved := (changedOnlyAt_removeAt hd path).elsewhere other
    (List.forall_mem_singleton.mpr hapart)
  exact ⟨getPath?_setAt_apart hapart doc value, hremoved,
    fun hobjects => at?_setAt_apart hapart hobjects value⟩

/-- A document with a text where an object is set. -/
def replacedNetwork : Json :=
  .obj [("machine", .obj [("network", .str "replaced"), ("type", .str "worker")])]

theorem replaced_network_set :
    replacedNetwork.WellFormed ∧
      (replacedNetwork.setAt ["machine", "network", "hostname"] (.str "cp-1")).getPath?
        ["machine", "network", "hostname"] = some (.str "cp-1") ∧
      (replacedNetwork.setAt ["machine", "network", "hostname"] (.str "cp-1")).getPath?
        ["machine", "type"] = some (.str "worker") := by
  have hd : replacedNetwork.WellFormed := by
    simp [replacedNetwork, Members.keys, WellFormed, WellFormedMembers]
  have hlaws := setAt_and_removeAt_laws hd
    (show ["machine", "network", "hostname"] ≠ [] by decide) ["machine", "type"] (.str "cp-1") .null
  exact ⟨hd, hlaws.1, (hlaws.2.2.2.2.2 (by decide) (by decide)).1⟩

end Laws

end ClusterConfig.Json
