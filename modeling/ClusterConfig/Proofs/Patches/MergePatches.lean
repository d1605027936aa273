import ClusterConfig.Patch.Application
import ClusterConfig.Proofs.Documents.MemberPaths
import ClusterConfig.Proofs.Patches.Strategic

/-!
# What a merge patch leaves

A merge patch decides every path of names that it mentions. Its scalars and arrays stand in the
document that it leaves, where it has a null there is no member, and a member beside those that it
mentions is the old one. There is nothing left to do for it a second time. So of patches that are
applied in order, the last one is found wherever it has a value.
-/

set_option autoImplicit false

namespace ClusterConfig

namespace Json

variable {members changes : Members Json} {name : String} {doc patch change : Json}
  {path : List String}

/-! ## One object -/

/-- What a change leaves of the member that it names. -/
def changed (old : Option Json) : Json → Option Json
  | .null => none
  | change => some (mergePatch (old.getD .null) change)

theorem changed_of_ne_null (h : change ≠ .null) (old : Option Json) :
    changed old change = some (mergePatch (old.getD .null) change) := by
  cases change with
  | null => exact absurd rfl h
  | _ => rfl

theorem mergeMembers_step (members rest : Members Json) (name : String) (change : Json) :
    mergeMembers members ((name, change) :: rest) =
      mergeMembers (members.update name (changed (members.get? name) change)) rest := by
  by_cases h : change = .null
  · rw [h, mergeMembers_null]
    rfl
  · rw [mergeMembers_cons h, changed_of_ne_null h]
    rfl

/-- A member that is mentioned is changed, and any other stays. -/
theorem get?_mergeMembers (hm : members.keys.Nodup) (hc : changes.keys.Nodup) (name : String) :
    Members.get? (mergeMembers members changes) name =
      (changes.get? name).elim (members.get? name) (changed (members.get? name)) := by
  induction changes generalizing members with
  | nil => rfl
  | cons entry rest ih =>
    obtain ⟨first, change⟩ := entry
    obtain ⟨hfirst, hrest⟩ := List.nodup_cons.mp hc
    rw [mergeMembers_step, ih (Members.nodup_update hm first _) hrest, Members.get?_update hm]
    by_cases h : name = first
    · -- names differ, so nothing after this change mentions its name
      subst h
      have hnone : Members.get? rest name = none := Members.get?_eq_none_iff.mpr hfirst
      rw [hnone, if_pos rfl, Members.get?, if_pos rfl]
      rfl
    · rw [if_neg h, Members.get?, if_neg (Ne.symm h)]

theorem get?_mergePatch (hd : doc.WellFormed) (hc : (obj changes).WellFormed) (name : String) :
    (mergePatch doc (.obj changes)).get? name =
      (changes.get? name).elim (doc.get? name) (changed (doc.get? name)) :=
  get?_mergeMembers hd.keys_nodup (wellFormed_obj.mp hc).1 name

/-! ## Paths -/

theorem getPath?_getD (old : Option Json) (path : List String) :
    ((old.getD .null).getPath? path).getD .null =
      (old.bind fun child => child.getPath? path).getD .null := by
  cases old with
  | some child => rfl
  | none => cases path <;> rfl

/-- Whatever a patch has under a path, unless it is null, is merged with what the document has
there. -/
theorem getPath?_mergePatch (hd : doc.WellFormed) (hp : patch.WellFormed)
    (h : patch.getPath? path = some change) (hn : change ≠ .null) :
    (mergePatch doc patch).getPath? path =
      some (mergePatch ((doc.getPath? path).getD .null) change) := by
  induction path generalizing doc patch with
  | nil =>
    obtain rfl : patch = change := Option.some.inj h
    rfl
  | cons name rest ih =>
    obtain ⟨child, hchild, hrest⟩ := Option.bind_eq_some_iff.mp h
    have hne : child ≠ .null := by
      rintro rfl
      cases rest with
      | nil => exact hn (Option.some.inj hrest).symm
      | cons next more => cases hrest
    cases patch with
    | obj changes =>
      have hold : ((doc.get? name).getD .null).WellFormed := by
        cases hg : doc.get? name with
        | none => trivial
        | some old => exact get?_wellFormed hd hg
      have hmember : (mergePatch doc (.obj changes)).get? name =
          some (mergePatch ((doc.get? name).getD .null) child) := by
        rw [get?_mergePatch hd hp, show Members.get? changes name = some child from hchild,
          Option.elim_some, changed_of_ne_null hne]
      rw [getPath?_cons, hmember, Option.bind_some, ih hold (get?_wellFormed hp hchild) hrest,
        getPath?_getD, getPath?_cons]
    | _ => cases hchild

/-- Under a path where a patch has an object, members are changed as that object says. -/
theorem getPath?_mergePatch_member (hd : doc.WellFormed) (hp : patch.WellFormed)
    (h : patch.getPath? path = some (.obj changes)) (name : String) :
    (mergePatch doc patch).getPath? (path ++ [name]) =
      (changes.get? name).elim (doc.getPath? (path ++ [name]))
        (changed (doc.getPath? (path ++ [name]))) := by
  have hold : ((doc.getPath? path).getD .null).WellFormed := by
    cases hg : doc.getPath? path with
    | none => trivial
    | some old => exact getPath?_wellFormed hd hg
  have hname : doc.getPath? (path ++ [name]) = ((doc.getPath? path).getD .null).get? name := by
    rw [getPath?_concat]
    cases doc.getPath? path <;> rfl
  rw [getPath?_concat, getPath?_mergePatch hd hp h (by simp), Option.bind_some,
    get?_mergePatch hold (getPath?_wellFormed hp h), hname]

/-- A path that leads somewhere ends in a member of an object. -/
theorem exists_object_above (hpath : path ≠ []) (h : patch.getPath? path = some change) :
    ∃ above name changes, path = above ++ [name] ∧ patch.getPath? above = some (.obj changes) ∧
      Members.get? changes name = some change := by
  obtain rfl | ⟨above, name, rfl⟩ := path.eq_nil_or_concat'
  · exact absurd rfl hpath
  · rw [getPath?_concat] at h
    obtain ⟨parent, hparent, hname⟩ := Option.bind_eq_some_iff.mp h
    cases parent with
    | obj changes => exact ⟨above, name, changes, rfl, hparent, hname⟩
    | _ => cases hname

theorem getPath?_mergePatch_changed (hd : doc.WellFormed) (hp : patch.WellFormed)
    (hpath : path ≠ []) (h : patch.getPath? path = some change) :
    (mergePatch doc patch).getPath? path = changed (doc.getPath? path) change := by
  obtain ⟨above, name, changes, rfl, habove, hname⟩ := exists_object_above hpath h
  rw [getPath?_mergePatch_member hd hp habove, hname]
  rfl

/-! ## A second time -/

theorem mergeMembers_eq_self (h : ∀ entry ∈ changes,
    changed (members.get? entry.1) entry.2 = members.get? entry.1) :
    mergeMembers members changes = members := by
  induction changes with
  | nil => rfl
  | cons entry rest ih =>
    obtain ⟨name, change⟩ := entry
    obtain ⟨hfirst, hrest⟩ := List.forall_mem_cons.mp h
    have hsame : members.update name (changed (members.get? name) change) = members := by
      dsimp only at hfirst
      rw [hfirst]
      cases hg : members.get? name with
      | none => exact Members.remove_eq_self hg
      | some value => exact Members.put_get? hg
    rw [mergeMembers_step, hsame]
    exact ih hrest

mutual

/-- What a patch left is left as it is by the same patch. -/
theorem mergePatch_again (patch : Json) (hp : patch.WellFormed) {doc : Json} (hd : doc.WellFormed) :
    mergePatch (mergePatch doc patch) patch = mergePatch doc patch := by
  cases patch with
  | obj changes =>
    obtain ⟨hc, hvalues⟩ := hp
    refine congrArg obj (mergeMembers_eq_self fun entry he => ?_)
    change changed (Members.get? (mergeMembers doc.members changes) entry.1) entry.2 =
      Members.get? (mergeMembers doc.members changes) entry.1
    rw [get?_mergeMembers hd.keys_nodup hc, Members.get?_of_mem hc he]
    refine changed_again changes hvalues entry he _ fun old ho => ?_
    exact get?_wellFormed hd ho
  | _ => rfl

theorem changed_again (changes : List (String × Json)) (hc : WellFormedMembers changes) :
    ∀ entry ∈ changes, ∀ old : Option Json, (∀ value ∈ old, value.WellFormed) →
      changed (changed old entry.2) entry.2 = changed old entry.2 := by
  match changes with
  | [] => exact fun entry h => absurd h List.not_mem_nil
  | (name, change) :: rest =>
    refine List.forall_mem_cons.mpr ⟨fun old ho => ?_, changed_again rest hc.2⟩
    by_cases h : change = .null
    · rw [h]
      rfl
    · have hold : (old.getD .null).WellFormed := by
        cases old with
        | none => trivial
        | some value => exact ho value rfl
      rw [changed_of_ne_null h, changed_of_ne_null h, Option.getD_some,
        mergePatch_again change hc.1 hold]

end

mutual

theorem mergePatch_wellFormed (patch : Json) (hp : patch.WellFormed) {doc : Json}
    (hd : doc.WellFormed) : (mergePatch doc patch).WellFormed := by
  cases patch with
  | obj changes =>
    refine wellFormed_obj.mpr
      (mergeMembers_wellFormed changes hp.2 hd.keys_nodup fun entry he => ?_)
    exact get?_wellFormed hd (Members.get?_of_mem hd.keys_nodup he)
  | _ => exact hp

theorem mergeMembers_wellFormed (changes : List (String × Json)) (hc : WellFormedMembers changes)
    {members : Members Json} (hm : members.keys.Nodup)
    (hv : ∀ entry ∈ members, entry.2.WellFormed) :
    (Members.keys (mergeMembers members changes)).Nodup ∧
      ∀ entry ∈ mergeMembers members changes, entry.2.WellFormed := by
  match changes with
  | [] => exact ⟨hm, hv⟩
  | (name, change) :: rest =>
    rw [mergeMembers_step]
    refine mergeMembers_wellFormed rest hc.2 (Members.nodup_update hm name _) fun entry he => ?_
    by_cases h : change = .null
    · rw [h] at he
      exact hv entry (Members.mem_of_mem_remove he)
    · rw [changed_of_ne_null h] at he
      obtain he | he := Members.mem_put he
      · exact hv entry he
      · have hold : ((members.get? name).getD .null).WellFormed := by
          cases hg : members.get? name with
          | none => trivial
          | some old => exact hv _ (Members.mem_of_get? hg)
        rw [he]
        exact mergePatch_wellFormed change hc.1 hold

end

/-! ## What a patch promises -/

/-- What a patch promises of the document that it leaves: its scalars and arrays are found, what it
nulls is gone, what it does not mention is as it was, and it has nothing more to change. -/
structure Honors (before patch after : Json) : Prop where
  leaves : ∀ path value, path ≠ [] → patch.getPath? path = some value → value ≠ .null →
    value.isObject = false → after.getPath? path = some value
  removals : ∀ path, path ≠ [] → patch.getPath? path = some .null → after.getPath? path = none
  others : ∀ path changes name, patch.getPath? path = some (.obj changes) →
    Members.get? changes name = none →
      after.getPath? (path ++ [name]) = before.getPath? (path ++ [name])
  settled : mergePatch after patch = after

theorem mergePatch_of_not_object (h : change.isObject = false) (doc : Json) :
    mergePatch doc change = change := by
  cases change with
  | obj changes => cases h
  | _ => rfl

theorem mergePatch_honors (hd : doc.WellFormed) (hp : patch.WellFormed) :
    Honors doc patch (mergePatch doc patch) where
  leaves path value hpath h hn ho := by
    rw [getPath?_mergePatch_changed hd hp hpath h, changed_of_ne_null hn,
      mergePatch_of_not_object ho]
  removals path hpath h := by
    rw [getPath?_mergePatch_changed hd hp hpath h]
    rfl
  others path changes name h hname := by
    rw [getPath?_mergePatch_member hd hp h, hname]
    rfl
  settled := mergePatch_again patch hp hd

end Json

/-! ## Patches in order -/

namespace Patch

open Json (Honors mergePatch mergePatch_honors mergePatch_wellFormed)

variable {patches : List Json}

theorem foldl_mergePatch_wellFormed (hp : ∀ patch ∈ patches, patch.WellFormed) {doc : Json}
    (hd : doc.WellFormed) : (patches.foldl mergePatch doc).WellFormed := by
  induction patches generalizing doc with
  | nil => exact hd
  | cons patch rest ih =>
    obtain ⟨hpatch, hrest⟩ := List.forall_mem_cons.mp hp
    exact ih hrest (mergePatch_wellFormed patch hpatch hd)

/-- Merge patches that are objects are all applied, the first one first. -/
theorem applyMerges (ho : ∀ patch ∈ patches, patch.isObject = true) (index : Nat) (state : State) :
    eachInOrder applyMerge index patches state =
      ({ state with doc := patches.foldl mergePatch state.doc }, .ok ()) := by
  induction patches generalizing index state with
  | nil => rfl
  | cons patch rest ih =>
    obtain ⟨hpatch, hrest⟩ := List.forall_mem_cons.mp ho
    rw [eachInOrder, applyMerge, if_pos hpatch]
    exact ih hrest (index + 1) _

/-- A merge patch keeps its promises to every document. So of a list of them that is applied in
order, as those of a role and then that of a node, the last one keeps them whatever came before. -/
theorem merge_patches_honored :
    (∀ doc patch : Json, doc.WellFormed → patch.WellFormed →
      Honors doc patch (mergePatch doc patch)) ∧
    ∀ (source : Documents.Source) (state : State) (earlier : List Json) (patch : Json),
      state.doc.WellFormed →
      (∀ merge ∈ earlier ++ [patch], merge.WellFormed ∧ merge.isObject = true) →
        ∃ after, PatchSet.apply source { merges := earlier ++ [patch] } state =
            ({ state with doc := after }, .ok ()) ∧
          Honors (earlier.foldl mergePatch state.doc) patch after := by
  refine ⟨fun doc patch hd hp => mergePatch_honors hd hp, ?_⟩
  intro source state earlier patch hd hmerges
  obtain ⟨hearlier, hpatch⟩ := List.forall_mem_append.mp hmerges
  have hbefore : (earlier.foldl mergePatch state.doc).WellFormed :=
    foldl_mergePatch_wellFormed (fun merge hm => (hearlier merge hm).1) hd
  refine ⟨_, ?_, mergePatch_honors hbefore (hpatch patch List.mem_cons_self).1⟩
  rw [PatchSet.apply, applyMerges fun merge hm => (hmerges merge hm).2, List.foldl_append]
  rfl

/-- A node's patch over that of its role: both name the image, one has an object where a text was,
and one nulls what was there and what was not. -/
theorem node_patch_over_role :
    let doc : Json := .obj [
      ("machine", .obj [
        ("install", .obj [("disk", .str "/dev/sda"), ("wipe", .bool false)]),
        ("sysctls", .str "none"), ("files", .arr [.int 1])]),
      ("debug", .bool false)]
    let role : Json := .obj [("machine", .obj [
      ("install", .obj [("disk", .null), ("image", .str "a")]),
      ("sysctls", .obj [("gone", .null), ("net", .obj [("port", .int 1)])])])]
    let node : Json := .obj [
      ("machine", .obj [("install", .obj [("image", .str "b")]), ("files", .null)]),
      ("new", .obj [("gone", .null), ("kept", .arr [.null])])]
    doc.WellFormed ∧ (∀ merge ∈ [role] ++ [node], merge.WellFormed ∧ merge.isObject = true) ∧
      Honors doc role (mergePatch doc role) ∧
      ∃ after, PatchSet.apply ⟨{}, Encryption.Decryptor.unavailable⟩ { merges := [role] ++ [node] }
          ⟨doc, {}⟩ = (⟨after, {}⟩, .ok ()) ∧
        Honors (mergePatch doc role) node after ∧
        after = .obj [
          ("machine", .obj [
            ("install", .obj [("wipe", .bool false), ("image", .str "b")]),
            ("sysctls", .obj [("net", .obj [("port", .int 1)])])]),
          ("debug", .bool false),
          ("new", .obj [("kept", .arr [.null])])] := by
  intro doc role node
  have hd : doc.WellFormed := by
    simp [doc, Json.WellFormed, Json.WellFormedItems, Json.WellFormedMembers, Members.keys]
  have hp : ∀ merge ∈ [role] ++ [node], merge.WellFormed ∧ merge.isObject = true := by
    simp [role, node, Json.isObject, Json.WellFormed, Json.WellFormedItems, Json.WellFormedMembers,
      Members.keys]
  obtain ⟨after, happly, hhonors⟩ := merge_patches_honored.2
    ⟨{}, Encryption.Decryptor.unavailable⟩ ⟨doc, {}⟩ [role] node hd hp
  refine ⟨hd, hp, merge_patches_honored.1 doc role hd (hp role List.mem_cons_self).1, after, happly,
    hhonors, ?_⟩
  exact (congrArg State.doc (Prod.mk.inj happly).1).symm

end Patch

end ClusterConfig
