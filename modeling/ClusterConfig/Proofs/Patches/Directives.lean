import ClusterConfig.Proofs.Patches.KeyedItems

/-!
# Directives stay in the patch

A directive tells how a patch is merged and is no part of what is merged. Wherever a merge takes
something from a patch, at any depth and into lists as into objects, it leaves the directives
behind; so a document without them stays without them, whatever the patch is.
-/

set_option autoImplicit false

namespace ClusterConfig.Json

mutual

/-- No member at any depth has the name of a directive. -/
def DirectiveFree : Json → Prop
  | .arr items => DirectiveFreeItems items
  | .obj members => DirectiveFreeMembers members
  | _ => True

def DirectiveFreeItems : List Json → Prop
  | [] => True
  | item :: rest => DirectiveFree item ∧ DirectiveFreeItems rest

def DirectiveFreeMembers : List (String × Json) → Prop
  | [] => True
  | (name, value) :: rest =>
    (name ≠ directiveName ∧ DirectiveFree value) ∧ DirectiveFreeMembers rest

end

variable {name : String} {value : Json} {items : List Json} {members : Members Json}

theorem directiveFreeItems_iff :
    DirectiveFreeItems items ↔ ∀ item ∈ items, item.DirectiveFree := by
  induction items with
  | nil => simp [DirectiveFreeItems]
  | cons item rest ih => simp [DirectiveFreeItems, ih]

theorem directiveFreeMembers_iff : DirectiveFreeMembers members ↔
    ∀ entry ∈ members, entry.1 ≠ directiveName ∧ entry.2.DirectiveFree := by
  induction members with
  | nil => simp [DirectiveFreeMembers]
  | cons entry rest ih => simp [DirectiveFreeMembers, ih]

theorem DirectiveFreeMembers.put (hm : DirectiveFreeMembers members) (hn : name ≠ directiveName)
    (hv : value.DirectiveFree) : DirectiveFreeMembers (members.put name value) := by
  rw [directiveFreeMembers_iff] at hm ⊢
  intro entry h
  rcases Members.mem_or_eq_of_mem_put h with h | rfl
  · exact hm entry h
  · exact ⟨hn, hv⟩

theorem DirectiveFreeMembers.remove (hm : DirectiveFreeMembers members) (name : String) :
    DirectiveFreeMembers (members.remove name) := by
  rw [directiveFreeMembers_iff] at hm ⊢
  exact fun entry h => hm entry (Members.mem_of_mem_remove h)

theorem DirectiveFreeMembers.get? (hm : DirectiveFreeMembers members)
    (h : Members.get? members name = some value) : value.DirectiveFree :=
  (directiveFreeMembers_iff.mp hm _ (Members.mem_of_get? h)).2

/-! ## What is inserted -/

mutual

theorem withoutDirectives_free (patch : Json) : patch.withoutDirectives.DirectiveFree := by
  cases patch with
  | obj changes => exact plainMembers_free changes
  | arr items => exact plainItems_free items
  | _ => trivial

theorem plainMembers_free (changes : List (String × Json)) :
    DirectiveFreeMembers (plainMembers changes) := by
  cases changes with
  | nil => trivial
  | cons entry rest =>
    obtain ⟨name, change⟩ := entry
    rw [plainMembers]
    split
    · exact plainMembers_free rest
    · next h =>
      have hname : name ≠ directiveName := fun he => h (by simp [he])
      exact ⟨⟨hname, withoutDirectives_free change⟩, plainMembers_free rest⟩

theorem plainItems_free (items : List Json) : DirectiveFreeItems (plainItems items) := by
  cases items with
  | nil => trivial
  | cons item rest => exact ⟨withoutDirectives_free item, plainItems_free rest⟩

end

/-! ## What is merged -/

mutual

theorem strategicMerge_free (patch : Json) {base : Json} (hb : base.DirectiveFree) :
    (strategicMerge base patch).DirectiveFree := by
  cases patch with
  | obj changes =>
    cases base with
    | obj members => exact strategicMembers_free changes hb
    | _ => exact plainMembers_free changes
  | arr items => exact plainItems_free items
  | _ => trivial

theorem strategicMembers_free (changes : List (String × Json)) {members : Members Json}
    (hm : DirectiveFreeMembers members) :
    DirectiveFreeMembers (strategicMembers members changes) := by
  cases changes with
  | nil => exact hm
  | cons entry rest =>
    obtain ⟨name, change⟩ := entry
    rw [strategicMembers]
    split
    · exact strategicMembers_free rest hm
    · next hname =>
      split
      · exact strategicMembers_free rest (hm.remove name)
      · refine strategicMembers_free rest (hm.put hname ?_)
        cases hold : Members.get? members name with
        | none => exact withoutDirectives_free change
        | some old => exact mergeValue_free name change (hm.get? hold)

theorem mergeValue_free (name : String) (change : Json) {old : Json} (ho : old.DirectiveFree) :
    (mergeValue name old change).DirectiveFree := by
  cases change with
  | obj changes =>
    cases old with
    | obj members => exact strategicMembers_free changes ho
    | _ => exact plainMembers_free changes
  | arr items =>
    cases old with
    | arr old => exact strategicItems_free (mergeKey? name) items ho
    | _ => exact plainItems_free items
  | _ => trivial

theorem strategicItems_free (key : Option String) (items : List Json) {old : List Json}
    (ho : DirectiveFreeItems old) : DirectiveFreeItems (strategicItems key old items) := by
  cases items with
  | nil => exact ho
  | cons item rest =>
    rw [strategicItems_cons_eq]
    refine strategicItems_free key rest (directiveFreeItems_iff.mpr fun taken h => ?_)
    rw [directiveFreeItems_iff] at ho
    rcases mem_strategicItems_single h with hm | rfl | ⟨found, hm, rfl⟩
    · exact ho taken hm
    · exact withoutDirectives_free item
    · exact strategicMerge_free item (ho found hm)

end

/-- A document without directives has none after any patch, whatever directives the patch holds. -/
theorem directives_stay_out (base patch : Json) (h : base.DirectiveFree) :
    (strategicMerge base patch).DirectiveFree :=
  strategicMerge_free patch h

/-- Directives in an inserted object, in items of lists and in a list within a list. -/
theorem nested_directives_left_out :
    let directive : String × Json := (directiveName, .str "replace")
    let base : Json := .obj [("interfaces", .arr [.obj [("interface", .str "eth0")]])]
    let patch : Json := .obj [directive,
      ("interfaces", .arr [
        .obj [("interface", .str "eth0"), directive, ("mtu", .int 9000)],
        .obj [("interface", .str "eth1"), ("vlans", .arr [.obj [("vlanId", .int 4), directive]])]]),
      ("files", .arr [.arr [.obj [directive]]]),
      ("install", .obj [("disk", .obj [directive]), directive])]
    base.DirectiveFree ∧ (strategicMerge base patch).DirectiveFree ∧
      strategicMerge base patch = .obj [
        ("interfaces", .arr [
          .obj [("interface", .str "eth0"), ("mtu", .int 9000)],
          .obj [("interface", .str "eth1"), ("vlans", .arr [.obj [("vlanId", .int 4)]])]]),
        ("files", .arr [.arr [.obj []]]),
        ("install", .obj [("disk", .obj [])])] := by
  intro directive base patch
  have hb : base.DirectiveFree := by
    simp [base, DirectiveFree, DirectiveFreeMembers, DirectiveFreeItems, directiveName]
  exact ⟨hb, directives_stay_out base patch hb, rfl⟩

end ClusterConfig.Json
