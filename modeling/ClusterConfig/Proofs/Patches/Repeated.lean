import ClusterConfig.Proofs.Patches.KeyedItems
import ClusterConfig.Proofs.Patches.Strategic

/-!
# Patches that are applied twice

Where every list of a patch has a merge key and its items have identities that differ and ask for no
removal, the patch finds nothing to do the second time. What it inserted is merged with what it was
made from, what it removed is not there, and what it merged is merged again with the same outcome.
-/

set_option autoImplicit false

namespace ClusterConfig.Json

variable {key name : String} {id change : Json} {old items : List Json}
  {members changes : Members Json}

mutual

/-- Lists are only found under names that have a merge key, and their items can be told apart. -/
def KeyedPatch : Json → Prop
  | .arr _ => False
  | .obj members => KeyedMembers members
  | _ => True

def KeyedMembers : List (String × Json) → Prop
  | [] => True
  | (name, value) :: rest => KeyedMember name value ∧ KeyedMembers rest

/-- The value of a member: if it is a list, the name has a merge key, and so has each item, whose
identities differ. -/
def KeyedMember (name : String) : Json → Prop
  | .arr items => ∃ key, mergeKey? name = some key ∧ IdentitiesDiffer key items ∧
      KeyedItems key items
  | .obj members => KeyedMembers members
  | _ => True

/-- Every item has an identity, and none asks for removal. -/
def KeyedItems (key : String) : List Json → Prop
  | [] => True
  | item :: rest => ((∃ id, item.get? key = some id ∧ IsIdentity id) ∧ item.isDelete = false ∧
      KeyedPatch item) ∧ KeyedItems key rest

end

theorem keyedItems_iff : KeyedItems key items ↔ ∀ item ∈ items,
    (∃ id, item.get? key = some id ∧ IsIdentity id) ∧ item.isDelete = false ∧ item.KeyedPatch := by
  induction items with
  | nil => simp [KeyedItems]
  | cons item rest ih => simp [KeyedItems, ih]

/-! ## Patches that leave a document as it is -/

/-- A member stays as it is if its patch value makes the same of it. -/
theorem strategicMembers_eq_self (h : ∀ entry ∈ changes,
    memberAfter entry.1 (Members.get? members entry.1) entry.2 = Members.get? members entry.1) :
    strategicMembers members changes = members := by
  induction changes with
  | nil => rfl
  | cons entry rest ih =>
    obtain ⟨name, change⟩ := entry
    obtain ⟨hfirst, hrest⟩ := List.forall_mem_cons.mp h
    rw [strategicMembers]
    dsimp only [memberAfter] at hfirst
    split
    · exact ih hrest
    · next hname =>
      rw [if_neg hname] at hfirst
      split
      · next hdelete =>
        rw [if_pos hdelete] at hfirst
        rw [Members.remove_eq_self hfirst.symm]
        exact ih hrest
      · next hdelete =>
        rw [if_neg hdelete] at hfirst
        have hput := Members.put_get? hfirst.symm
        exact (congrArg (strategicMembers · rest) hput).trans (ih hrest)

/-- A list stays as it is if each patch item makes the same of the item of its identity. -/
theorem strategicItems_eq_self (h : ∀ change ∈ items, change.isDelete = false ∧
    ∃ id found, change.get? key = some id ∧ identified? key old id = some found ∧
      strategicMerge found change = found) :
    strategicItems (some key) old items = old := by
  induction items with
  | nil => rfl
  | cons change rest ih =>
    obtain ⟨⟨hdelete, id, found, hid, hfound, hsame⟩, hrest⟩ := List.forall_mem_cons.mp h
    have hfirst : strategicItems (some key) old [change] = old := by
      rcases strategicItems_single hid old with ⟨before, first, after, rfl, hf, hb, he⟩ | ⟨hn, -⟩
      · have hf' : identified? key (before ++ first :: after) id = some first :=
          identified?_eq_some.mpr ⟨hf, before, after, rfl, hb⟩
        obtain rfl : first = found := Option.some.inj (hf'.symm.trans hfound)
        rw [he, itemAfter, hdelete, if_neg Bool.false_ne_true, hsame]
        rfl
      · rw [identified?_eq_none.mpr hn] at hfound
        cases hfound
    rw [strategicItems_cons_eq, hfirst]
    exact ih hrest

/-- Of items whose identities differ, only the item itself names its identity. -/
theorem naming_self (hd : IdentitiesDiffer key items) (hm : change ∈ items)
    (h : change.get? key = some id) (hid : IsIdentity id) : naming key items id = [change] := by
  obtain ⟨before, after, rfl⟩ := List.append_of_mem hm
  have hbehind := hd.behind hid.scalar (hasIdentity_of_get? hid h)
  have hbefore : ∀ item ∈ before, ¬ HasIdentity key item id := fun item hi =>
    (List.pairwise_append.mp hd).2.2 item hi change List.mem_cons_self id h
  have hitself : (change.get? key == some id) = true := hasIdentity_of_get? hid h
  rw [naming, List.filter_append, List.filter_eq_nil_iff.mpr hbefore, List.nil_append,
    List.filter_cons, if_pos hitself, List.filter_eq_nil_iff.mpr hbehind]

/-! ## What is inserted is merged with nothing -/

theorem strategicMembers_inserts (hc : (Members.keys changes).Nodup)
    (hf : ∀ name ∈ Members.keys changes, Members.get? members name = none) :
    strategicMembers members changes = members ++ plainMembers changes := by
  induction changes generalizing members with
  | nil => exact (List.append_nil members).symm
  | cons entry rest ih =>
    obtain ⟨name, change⟩ := entry
    obtain ⟨hname, hrest⟩ := List.nodup_cons.mp hc
    obtain ⟨hfresh, hf'⟩ := List.forall_mem_cons.mp hf
    rw [strategicMembers, plainMembers]
    by_cases hd : name = directiveName
    · rw [if_pos hd, if_pos (by simp [hd]), ih hrest hf']
    by_cases hx : change.isDelete = true
    · rw [if_neg hd, if_pos hx, if_pos (by simp [hx]), Members.remove_eq_self hfresh, ih hrest hf']
    · have hput : ∀ other ∈ Members.keys rest,
          (members.put name change.withoutDirectives).get? other = none :=
        Members.get?_put_fresh hname hf' _
      rw [if_neg hd, if_neg hx, if_neg (by simp [hd, hx])]
      dsimp only at hfresh
      rw [hfresh]
      dsimp only
      rw [ih hrest hput, Members.put_eq_append hfresh, List.append_assoc, List.singleton_append]

theorem plainMembers_eq_strategicMembers (hc : (Members.keys changes).Nodup) :
    plainMembers changes = strategicMembers [] changes := by
  rw [strategicMembers_inserts hc fun name _ => rfl, List.nil_append]

theorem withoutDirectives_eq_strategicMerge (hc : change.NamesDiffer) :
    change.withoutDirectives = strategicMerge (obj []) change := by
  cases change with
  | obj changes => exact congrArg obj (plainMembers_eq_strategicMembers hc)
  | _ => rfl

theorem plainItems_eq_strategicItems (hk : key ≠ directiveName)
    (hi : ∀ change ∈ items, Identified key change) (hd : IdentitiesDiffer key items)
    (hstay : ∀ change ∈ items, change.isDelete = false) :
    plainItems items = strategicItems (some key) [] items := by
  have hdistinct : items.Pairwise fun before item =>
      ∀ id, item.get? key = some id → ¬ HasIdentity key before.withoutDirectives id := by
    refine List.Pairwise.imp_of_mem (fun hm _ hdiffer id h hsame => ?_) hd
    obtain ⟨hnames, own, hown, hid⟩ := hi _ hm
    have hplain := hasIdentity_of_get? hid (get?_withoutDirectives hk hnames hown hid.scalar)
    exact hdiffer id h (((hasIdentity_of_get? hid hown).iff hid.scalar id).mpr
      ((hplain.iff hid.scalar id).mp hsame))
  rw [strategicItems_of_separate (newTo_nil key items)
    ⟨fun item hm _ _ => hstay item hm, hdistinct⟩, List.nil_append]

/-! ## What is merged is merged again -/

theorem wellFormed_empty : (obj []).WellFormed := ⟨List.nodup_nil, trivial⟩

/-- Merging a patch into what it was merged into before changes nothing. -/
def Settles (merge : Json → Json → Json) (change : Json) : Prop :=
  ∀ old, old.WellFormed → merge (merge old change) change = merge old change

theorem memberAfter_again (hv : Settles (mergeValue name) change)
    (hi : ∃ empty : Json, empty.WellFormed ∧
      change.withoutDirectives = mergeValue name empty change)
    {old : Option Json} (ho : ∀ value ∈ old, value.WellFormed) :
    memberAfter name (memberAfter name old change) change = memberAfter name old change := by
  unfold memberAfter
  by_cases hd : name = directiveName
  · rw [if_pos hd, if_pos hd]
  by_cases hx : change.isDelete = true
  · rw [if_neg hd, if_pos hx, if_neg hd, if_pos hx]
  · rw [if_neg hd, if_neg hx, if_neg hd, if_neg hx]
    cases old with
    | none =>
      obtain ⟨empty, hempty, he⟩ := hi
      dsimp only
      rw [he, hv empty hempty]
    | some old => exact congrArg some (hv old (ho old rfl))

theorem strategicMembers_again (hm : (obj members).WellFormed)
    (hc : (Members.keys changes).Nodup)
    (h : ∀ entry ∈ changes, ∀ old : Option Json, (∀ value ∈ old, value.WellFormed) →
      memberAfter entry.1 (memberAfter entry.1 old entry.2) entry.2 =
        memberAfter entry.1 old entry.2) :
    strategicMembers (strategicMembers members changes) changes =
      strategicMembers members changes := by
  obtain ⟨hnames, hvalues⟩ := wellFormed_obj.mp hm
  refine strategicMembers_eq_self fun entry he => ?_
  rw [get?_strategicMembers hnames hc, Members.get?_of_mem hc he]
  exact h entry he _ fun value hv => hvalues _ (Members.mem_of_get? hv)

theorem strategicItems_again (hk : key ≠ directiveName)
    (hi : ∀ change ∈ items, Identified key change) (hd : IdentitiesDiffer key items)
    (hstay : ∀ change ∈ items, change.isDelete = false) (ho : ∀ item ∈ old, item.WellFormed)
    (h : ∀ change ∈ items, Settles strategicMerge change) :
    strategicItems (some key) (strategicItems (some key) old items) items =
      strategicItems (some key) old items := by
  refine strategicItems_eq_self fun change hm => ⟨hstay change hm, ?_⟩
  obtain ⟨hnames, id, hid, hidentity⟩ := hi change hm
  have hfound := identified?_strategicItems hk hi (fun item hm => (ho item hm).namesDiffer)
    (.inl hstay) id
  rw [naming_self hd hm hid hidentity, List.foldl_cons, List.foldl_nil] at hfound
  have hmerged (found : Option Json) : itemAfter found change =
      some (strategicMerge (found.getD (obj [])) change) := by
    cases found <;> simp [itemAfter, hstay change hm, withoutDirectives_eq_strategicMerge hnames]
  rw [hmerged] at hfound
  refine ⟨id, _, hid, hfound, h change hm _ ?_⟩
  cases hold : identified? key old id with
  | none => exact wellFormed_empty
  | some found => exact ho found (List.mem_of_find?_eq_some hold)

theorem keyedMember_of_keyedPatch (hp : change.KeyedPatch) (name : String) :
    KeyedMember name change := by
  cases change with
  | arr items => exact hp.elim
  | _ => exact hp

theorem mergeValue_of_keyedPatch (hp : change.KeyedPatch) (name : String) (old : Json) :
    mergeValue name old change = strategicMerge old change := by
  cases change with
  | arr items => exact hp.elim
  | _ => cases old <;> simp only [mergeValue, strategicMerge]

theorem identified_of_keyed (hw : (arr items).WellFormed) (hp : KeyedItems key items) :
    ∀ item ∈ items, Identified key item := fun item hm =>
  ⟨(wellFormed_arr.mp hw item hm).namesDiffer, (keyedItems_iff.mp hp item hm).1⟩

/-- What is inserted is what it would be merged into something empty of its kind. -/
theorem withoutDirectives_eq_mergeValue (hw : change.WellFormed) (hp : KeyedMember name change) :
    ∃ empty : Json, empty.WellFormed ∧ change.withoutDirectives = mergeValue name empty change := by
  cases change with
  | obj changes =>
    exact ⟨obj [], wellFormed_empty, congrArg obj (plainMembers_eq_strategicMembers hw.1)⟩
  | arr items =>
    obtain ⟨key, hk, hd, hi⟩ := hp
    refine ⟨arr [], by simp [wellFormed_arr], congrArg arr ?_⟩
    rw [hk]
    exact plainItems_eq_strategicItems (ne_directiveName_of_mergeKey? hk)
      (identified_of_keyed hw hi) hd fun item hm => (keyedItems_iff.mp hi item hm).2.1
  | _ => exact ⟨obj [], wellFormed_empty, by simp only [mergeValue, withoutDirectives]⟩

mutual

theorem mergeValue_again (name : String) (change : Json) (hw : change.WellFormed)
    (hp : KeyedMember name change) : Settles (mergeValue name) change := by
  intro old ho
  cases change with
  | obj changes =>
    obtain ⟨hc, hvalues⟩ := hw
    have hagain {members : Members Json} (hm : (obj members).WellFormed) :=
      strategicMembers_again hm hc (members_again changes hvalues hp)
    cases old with
    | obj members => exact congrArg obj (hagain ho)
    | _ =>
      have hinserted := hagain wellFormed_empty
      rw [← plainMembers_eq_strategicMembers hc] at hinserted
      exact congrArg obj hinserted
  | arr items =>
    obtain ⟨key, hk, hd, hitems⟩ := hp
    have hne : key ≠ directiveName := ne_directiveName_of_mergeKey? hk
    have hi : ∀ item ∈ items, Identified key item := identified_of_keyed hw hitems
    have hstay : ∀ item ∈ items, item.isDelete = false :=
      fun item hm => (keyedItems_iff.mp hitems item hm).2.1
    have hagain {old : List Json} (ho : ∀ item ∈ old, item.WellFormed) :=
      strategicItems_again hne hi hd hstay ho (items_again key items hw hitems)
    cases old with
    | arr old =>
      have hlist := hagain (wellFormed_arr.mp ho)
      rw [← hk] at hlist
      exact congrArg arr hlist
    | _ =>
      have hnone : ∀ item ∈ ([] : List Json), item.WellFormed := by simp
      have hlist := hagain hnone
      rw [← plainItems_eq_strategicItems hne hi hd hstay, ← hk] at hlist
      exact congrArg arr hlist
  | _ => exact mergeValue_of_isScalar rfl name _

theorem members_again (changes : List (String × Json)) (hw : WellFormedMembers changes)
    (hp : KeyedMembers changes) : ∀ entry ∈ changes, ∀ old : Option Json,
      (∀ value ∈ old, value.WellFormed) →
      memberAfter entry.1 (memberAfter entry.1 old entry.2) entry.2 =
        memberAfter entry.1 old entry.2 := by
  match changes with
  | [] => exact fun entry h => absurd h List.not_mem_nil
  | (name, change) :: rest =>
    refine List.forall_mem_cons.mpr ⟨fun old ho => ?_, members_again rest hw.2 hp.2⟩
    exact memberAfter_again (mergeValue_again name change hw.1 hp.1)
      (withoutDirectives_eq_mergeValue hw.1 hp.1) ho

theorem items_again (key : String) (items : List Json) (hw : WellFormedItems items)
    (hp : KeyedItems key items) : ∀ item ∈ items, Settles strategicMerge item := by
  match items with
  | [] => exact fun item h => absurd h List.not_mem_nil
  | item :: rest =>
    refine List.forall_mem_cons.mpr ⟨fun old ho => ?_, items_again key rest hw.2 hp.2⟩
    have hpatch : item.KeyedPatch := hp.1.2.2
    rw [← mergeValue_of_keyedPatch hpatch key, ← mergeValue_of_keyedPatch hpatch key]
    exact mergeValue_again key item hw.1 (keyedMember_of_keyedPatch hpatch key) old ho

end

/-- A patch whose lists are all keyed, with items that differ in their identities and stay, makes of
what it made of a document the same once more, with all members and items in their order. -/
theorem second_time_same (base : Json) {patch : Json} (hb : base.WellFormed)
    (hw : patch.WellFormed) (hp : patch.KeyedPatch) :
    strategicMerge (strategicMerge base patch) patch = strategicMerge base patch := by
  have hmember : KeyedMember "" patch := keyedMember_of_keyedPatch hp ""
  rw [← mergeValue_of_keyedPatch hp "", ← mergeValue_of_keyedPatch hp ""]
  exact mergeValue_again "" patch hw hmember base hb

/-- The document has an identity twice, a member that goes and a scalar where the patch has a
map. -/
theorem interfaces_merged_twice :
    let delete : Json := .obj [(directiveName, .str "delete")]
    let eth0 : String × Json := ("interface", .str "eth0")
    let base : Json := .obj [
      ("network", .obj [("old", .int 1), ("hostname", .str "a"),
        ("interfaces", .arr [.obj [eth0, ("mtu", .int 1500)], .obj [eth0], .str "none"])]),
      ("kernel", .bool true)]
    let vlan : Json := .obj [("vlanId", .int 4), ("gone", delete)]
    let patch : Json := .obj [
      ("network", .obj [("old", delete), ("interfaces", .arr [.obj [eth0, ("mtu", .int 9000)],
        .obj [("interface", .str "eth1"), ("vlans", .arr [vlan])]])]),
      ("kernel", .obj [("modules", .arr [.obj [("name", .str "br"), ("old", delete)]])])]
    base.WellFormed ∧ patch.WellFormed ∧ patch.KeyedPatch ∧
      strategicMerge (strategicMerge base patch) patch = strategicMerge base patch ∧
      strategicMerge base patch = .obj [
        ("network", .obj [
          ("interfaces", .arr [.obj [eth0, ("mtu", .int 9000)], .obj [eth0], .str "none",
            .obj [("interface", .str "eth1"), ("vlans", .arr [.obj [("vlanId", .int 4)]])]]),
          ("hostname", .str "a")]),
        ("kernel", .obj [("modules", .arr [.obj [("name", .str "br")]])])] := by
  intro delete eth0 base vlan patch
  have hb : base.WellFormed := by
    simp [base, eth0, WellFormed, WellFormedItems, WellFormedMembers, Members.keys]
  have hw : patch.WellFormed := by
    simp [patch, eth0, vlan, delete, directiveName, WellFormed, WellFormedItems, WellFormedMembers,
      Members.keys]
  have hp : patch.KeyedPatch := by
    simp [patch, eth0, vlan, delete, directiveName, KeyedPatch, KeyedMembers, KeyedMember,
      KeyedItems, mergeKey?, Members.get?, IdentitiesDiffer, HasIdentity, get?, Json.members, isIdentity_str,
      isDelete]
    exact ⟨by decide, ⟨rfl, by decide⟩⟩
  exact ⟨hb, hw, hp, second_time_same base hb hw hp, rfl⟩

end ClusterConfig.Json
