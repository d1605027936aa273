import ClusterConfig.Json.MergePatch
import ClusterConfig.Json.StrategicMerge
import ClusterConfig.Proofs.Documents.Unordered

/-!
# Strategic merges without lists

On patches without lists and nulls, a strategic merge is the merge patch in which deletions are
spelled as nulls and directives are left out. Both go through the members in the same order and
remove them the same way, so the results have their members in the same order, too.
-/

set_option autoImplicit false

namespace ClusterConfig

namespace Members

variable {α : Type} {members : Members α} {key : String}

theorem put_eq_append (h : get? members key = none) (value : α) :
    put members key value = members ++ [(key, value)] := by
  induction members with
  | nil => rfl
  | cons entry rest ih =>
    by_cases hk : entry.1 = key
    · simp [get?, hk] at h
    · simp only [get?, hk, if_false] at h
      simp [put, hk, ih h]

end Members

namespace Json

mutual

/-- The merge patch that a patch of maps stands for: a deletion is a null, a directive is nothing. -/
def deletionsAsNulls : Json → Json
  | .obj members => .obj (memberDeletionsAsNulls members)
  | value => value

def memberDeletionsAsNulls : List (String × Json) → List (String × Json)
  | [] => []
  | (name, value) :: rest =>
    if name = directiveName then memberDeletionsAsNulls rest
    else if value.isDelete then (name, .null) :: memberDeletionsAsNulls rest
    else (name, deletionsAsNulls value) :: memberDeletionsAsNulls rest

end

mutual

/-- There is no list and no null at any depth. -/
def OnlyMaps : Json → Prop
  | .null => False
  | .arr _ => False
  | .obj members => OnlyMapMembers members
  | _ => True

def OnlyMapMembers : List (String × Json) → Prop
  | [] => True
  | (_, value) :: rest => OnlyMaps value ∧ OnlyMapMembers rest

end

variable {members changes : Members Json} {name : String} {change patch : Json}

theorem mergeMembers_null (members rest : Members Json) (name : String) :
    mergeMembers members ((name, .null) :: rest) = mergeMembers (members.remove name) rest := by
  rw [mergeMembers]

theorem mergeMembers_cons (h : change ≠ .null) (members rest : Members Json) (name : String) :
    mergeMembers members ((name, change) :: rest) =
      mergeMembers (members.put name (mergePatch ((members.get? name).getD .null) change)) rest := by
  cases change with
  | null => exact absurd rfl h
  | _ => rw [mergeMembers]; simp

theorem deletionsAsNulls_ne_null (h : change.OnlyMaps) : change.deletionsAsNulls ≠ .null := by
  cases change <;> simp [OnlyMaps, deletionsAsNulls] at h ⊢

mutual

/-- Where nothing is to merge with, a patch is inserted without its directives. -/
theorem mergePatch_inserts (patch : Json) (hw : patch.WellFormed) (hp : patch.OnlyMaps)
    {base : Json} (hb : base.members = []) :
    mergePatch base patch.deletionsAsNulls = withoutDirectives patch := by
  cases patch with
  | obj changes =>
    have h := mergeMembers_inserts changes hw.1 hw.2 hp [] fun name _ => rfl
    rw [deletionsAsNulls, mergePatch, hb, h, withoutDirectives, List.nil_append]
  | null => cases hp
  | arr items => cases hp
  | _ => rw [deletionsAsNulls, mergePatch, withoutDirectives] <;> simp

theorem mergeMembers_inserts (changes : List (String × Json)) (hn : (Members.keys changes).Nodup)
    (hw : WellFormedMembers changes) (hp : OnlyMapMembers changes) (members : Members Json)
    (hf : ∀ name ∈ Members.keys changes, members.get? name = none) :
    mergeMembers members (memberDeletionsAsNulls changes) = members ++ plainMembers changes := by
  match changes with
  | [] => simp [memberDeletionsAsNulls, mergeMembers, plainMembers]
  | (name, change) :: rest =>
    obtain ⟨hname, hrest⟩ := List.nodup_cons.mp hn
    have hfresh : members.get? name = none := hf name List.mem_cons_self
    have ih (more : Members Json) (hm : ∀ other ∈ Members.keys rest, more.get? other = none) :=
      mergeMembers_inserts rest hrest hw.2 hp.2 more hm
    have hf' : ∀ other ∈ Members.keys rest, members.get? other = none :=
      fun other h => hf other (List.mem_cons_of_mem _ h)
    rw [memberDeletionsAsNulls, plainMembers]
    by_cases hd : name = directiveName
    · rw [if_pos hd, if_pos (by simp [hd]), ih members hf']
    by_cases hx : change.isDelete = true
    · rw [if_neg hd, if_pos hx, if_pos (by simp [hx]), mergeMembers_null,
        Members.remove_eq_self hfresh, ih members hf']
    · have hput : ∀ other ∈ Members.keys rest,
          (members.put name (withoutDirectives change)).get? other = none :=
        Members.get?_put_fresh hname hf' _
      rw [if_neg hd, if_neg hx, if_neg (by simp [hd, hx]),
        mergeMembers_cons (deletionsAsNulls_ne_null hp.1), hfresh,
        mergePatch_inserts change hw.1 hp.1 rfl, ih _ hput, Members.put_eq_append hfresh,
        List.append_assoc, List.singleton_append]

end

mutual

theorem strategicMerge_of_onlyMaps (patch : Json) (hw : patch.WellFormed) (hp : patch.OnlyMaps)
    (base : Json) : strategicMerge base patch = mergePatch base patch.deletionsAsNulls := by
  cases patch with
  | obj changes =>
    cases base with
    | obj members =>
      rw [strategicMerge, deletionsAsNulls, mergePatch]
      exact congrArg obj (strategicMembers_of_onlyMaps changes hw.2 hp members)
    | _ =>
      rw [mergePatch_inserts _ hw hp rfl]
      rfl
  | null => cases hp
  | arr items => cases hp
  | _ => rw [deletionsAsNulls, mergePatch, strategicMerge, withoutDirectives] <;> simp

theorem strategicMembers_of_onlyMaps (changes : List (String × Json))
    (hw : WellFormedMembers changes) (hp : OnlyMapMembers changes) (members : Members Json) :
    strategicMembers members changes = mergeMembers members (memberDeletionsAsNulls changes) := by
  match changes with
  | [] => rw [strategicMembers, memberDeletionsAsNulls, mergeMembers]
  | (name, change) :: rest =>
    have ih := strategicMembers_of_onlyMaps rest hw.2 hp.2
    rw [strategicMembers, memberDeletionsAsNulls]
    by_cases hd : name = directiveName
    · rw [if_pos hd, if_pos hd, ih]
    by_cases hx : change.isDelete = true
    · rw [if_neg hd, if_neg hd, if_pos hx, if_pos hx, mergeMembers_null, ih]
    · rw [if_neg hd, if_neg hd, if_neg hx, if_neg hx,
        mergeMembers_cons (deletionsAsNulls_ne_null hp.1), ih]
      cases hold : members.get? name with
      | none => rw [mergePatch_inserts change hw.1 hp.1 rfl]
      | some old =>
        have hv : mergeValue name old change = strategicMerge old change := by
          cases change with
          | arr items => exact hp.1.elim
          | _ => cases old <;> simp only [mergeValue, strategicMerge]
        rw [Option.getD_some, ← strategicMerge_of_onlyMaps change hw.1 hp.1 old, ← hv]

end

/-- Without lists and nulls, the two ways to merge maps differ in the spelling of deletions only. -/
theorem strategicMerge_eq_mergePatch (base : Json) {patch : Json} (hw : patch.WellFormed)
    (hp : patch.OnlyMaps) : strategicMerge base patch = mergePatch base patch.deletionsAsNulls :=
  strategicMerge_of_onlyMaps patch hw hp base

/-- A deletion of what is there, and one of what is only just inserted. -/
theorem deletions_of_old_and_new :
    let base : Json := .obj [("a", .obj [("x", .int 1)]), ("b", .int 2), ("c", .arr [.int 3])]
    let deletion : Json := .obj [(directiveName, .str "delete")]
    let patch : Json := .obj [("a", deletion), ("n", .obj [("m", .bool true), ("x", deletion)])]
    patch.WellFormed ∧ patch.OnlyMaps ∧
      strategicMerge base patch = mergePatch base patch.deletionsAsNulls ∧
      mergePatch base patch.deletionsAsNulls =
        .obj [("c", .arr [.int 3]), ("b", .int 2), ("n", .obj [("m", .bool true)])] := by
  intro base deletion patch
  have hw : patch.WellFormed := by
    simp [patch, deletion, WellFormed, WellFormedMembers, Members.keys, directiveName]
  have hp : patch.OnlyMaps := by simp [patch, deletion, OnlyMaps, OnlyMapMembers]
  exact ⟨hw, hp, strategicMerge_eq_mergePatch base hw hp, rfl⟩

end Json

end ClusterConfig
