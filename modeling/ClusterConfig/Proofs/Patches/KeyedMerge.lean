import ClusterConfig.Proofs.Patches.KeyedItems

/-!
# Merging into a keyed list

A list whose items have identities is first those of its items that the patch does not remove, in
their order, and then what the patch added. An identity ends with what the items that name it make
of the item it had, and an item that is not named stays as it is.
-/

set_option autoImplicit false

namespace ClusterConfig.Json

variable {key list : String} {id change item last : Json} {base old items : List Json}

/-- Whether an item of a patch has the identity of an item. -/
def namedBy (key : String) (items : List Json) (item : Json) : Bool :=
  items.any fun change => item.get? key == change.get? key

/-- What an item of the list becomes in its place: it goes if one of the patch items that name it
asks for removal, and is merged with all of them otherwise. -/
def inPlace (key : String) (items : List Json) (item : Json) : Option Json :=
  let changes := ((item.get? key).map fun id => naming key items id).getD []
  if changes.any isDelete then none else some (changes.foldl strategicMerge item)

theorem namedBy_of_identity (hm : change ∈ items) (h : change.get? key = some id)
    (hi : HasIdentity key item id) : namedBy key items item = true :=
  List.any_eq_true.mpr ⟨change, hm, by rw [h]; exact hi⟩

/-! ## Items that are not named -/

theorem filter_unnamed_single (hk : key ≠ directiveName) (hc : Identified key change)
    (hm : change ∈ items) (hn : ∀ item ∈ old, item.NamesDiffer) :
    (strategicItems (some key) old [change]).filter (fun item => !namedBy key items item) =
      old.filter fun item => !namedBy key items item := by
  obtain ⟨hnames, id, h, hid⟩ := hc
  have hdrop {found : Option Json} (hf : ∀ old ∈ found, old.NamesDiffer) :
      (itemAfter found change).toList.filter (fun item => !namedBy key items item) = [] := by
    refine List.filter_eq_nil_iff.mpr fun item hi => ?_
    have hitem := itemAfter_get? hk hnames h hid.scalar hf (Option.mem_toList.mp hi)
    simp [namedBy_of_identity hm h (hasIdentity_of_get? hid hitem)]
  rcases strategicItems_single h old with ⟨before, found, after, rfl, hf, -, he⟩ | ⟨-, he⟩
  · have hfound : found.NamesDiffer := hn found (List.mem_append_right _ List.mem_cons_self)
    rw [he, List.filter_append, List.filter_append, hdrop (by simpa using hfound), List.nil_append,
      List.filter_append, List.filter_cons_of_neg (by simp [namedBy_of_identity hm h hf])]
  · rw [he, List.filter_append, hdrop (by simp), List.append_nil]

/-- The items that no item of the patch names are the same as before, in the same order. -/
theorem filter_unnamed (hk : key ≠ directiveName) (all : List Json) (hs : items ⊆ all)
    (hi : ∀ change ∈ items, Identified key change) (hn : ∀ item ∈ old, item.NamesDiffer) :
    (strategicItems (some key) old items).filter (fun item => !namedBy key all item) =
      old.filter fun item => !namedBy key all item := by
  induction items generalizing old with
  | nil => rfl
  | cons change rest ih =>
    obtain ⟨hc, hrest⟩ := List.forall_mem_cons.mp hi
    obtain ⟨hm, hsub⟩ := List.cons_subset.mp hs
    rw [strategicItems_cons_eq, ih hsub hrest (namesDiffer_single hc.names hn),
      filter_unnamed_single hk hc hm hn]

/-! ## Items that keep their places -/

/-- An item of the list after one patch item of the identity `id`. -/
def touched (key : String) (id change item : Json) : Option Json :=
  if item.get? key == some id then itemAfter (some item) change else some item

theorem touched_of_identity (h : HasIdentity key item id) :
    touched key id change item = itemAfter (some item) change := if_pos h

theorem touched_of_not (h : ¬ HasIdentity key item id) :
    touched key id change item = some item := if_neg h

theorem filterMap_touched (h : ∀ item ∈ old, ¬ HasIdentity key item id) :
    old.filterMap (touched key id change) = old := by
  rw [List.filterMap_congr fun item hm => touched_of_not (h item hm), List.filterMap_some]

/-- A patch item changes or removes the item of its identity in its place, or adds one behind all
others. -/
theorem strategicItems_single_touched (h : change.get? key = some id) (hs : id.isScalar = true)
    (hd : IdentitiesDiffer key old) :
    ∃ added, strategicItems (some key) old [change] =
        old.filterMap (touched key id change) ++ added ∧
      (added = [] ∨ added = (itemAfter none change).toList) := by
  rcases strategicItems_single h old with ⟨before, found, after, rfl, hf, hb, he⟩ | ⟨hnone, he⟩
  · refine ⟨[], ?_, .inl rfl⟩
    rw [he, List.filterMap_append, List.filterMap_cons, filterMap_touched hb,
      filterMap_touched (hd.behind hs hf), touched_of_identity hf, List.append_nil]
    cases itemAfter (some found) change <;> rfl
  · exact ⟨_, by rw [he, filterMap_touched hnone], .inr rfl⟩

theorem inPlace_nil (item : Json) : inPlace key [] item = some item := by
  unfold inPlace
  cases item.get? key <;> rfl

theorem inPlace_cons (hk : key ≠ directiveName) (hc : change.NamesDiffer)
    (h : change.get? key = some id) (hs : id.isScalar = true) (hn : item.NamesDiffer)
    (rest : List Json) :
    inPlace key (change :: rest) item = (touched key id change item).bind (inPlace key rest) := by
  by_cases hi : HasIdentity key item id
  · obtain ⟨own, hown, hsame⟩ := hasIdentity_iff.mp hi
    have hsame' : id.same own = true := by rwa [same_comm hs] at hsame
    rw [touched_of_identity hi, inPlace, hown, Option.map_some, Option.getD_some, naming_cons h,
      if_pos hsame', List.any_cons]
    cases hd : change.isDelete with
    | true => rw [(itemAfter_eq_none_iff _).mpr hd]; rfl
    | false =>
      have hmerged : itemAfter (some item) change = some (strategicMerge item change) := by
        simp [itemAfter, hd]
      have hget : (strategicMerge item change).get? key = some id :=
        get?_strategicMerge hk hn hc h hs
      rw [hmerged, Option.bind_some, inPlace, hget, Option.map_some, Option.getD_some,
        naming_congr hs hsame]
      rfl
  · rw [touched_of_not hi, Option.bind_some, inPlace, inPlace]
    cases hown : item.get? key with
    | none => rfl
    | some own =>
      have hdiffer : ¬ id.same own = true := by
        rw [← same_comm hs]
        exact fun hsame => hi (hasIdentity_iff.mpr ⟨own, hown, hsame⟩)
      rw [Option.map_some, Option.map_some, naming_cons h, if_neg hdiffer]

/-- A list that goes through a patch: its first items keep their order, and what comes behind them
was behind them already or is named by the patch. -/
theorem strategicItems_inPlace (hk : key ≠ directiveName)
    (hi : ∀ change ∈ items, Identified key change) (front tail : List Json)
    (hn : ∀ item ∈ front ++ tail, item.NamesDiffer) (hd : IdentitiesDiffer key (front ++ tail)) :
    ∃ added, strategicItems (some key) (front ++ tail) items =
        front.filterMap (inPlace key items) ++ added ∧
      ∀ item ∈ added, item ∈ tail ∨ namedBy key items item = true := by
  induction items generalizing front tail with
  | nil =>
    refine ⟨tail, ?_, fun item h => .inl h⟩
    rw [List.filterMap_congr fun item _ => inPlace_nil item, List.filterMap_some]
    rfl
  | cons change rest ih =>
    obtain ⟨⟨hc, id, h, hid⟩, hrest⟩ := List.forall_mem_cons.mp hi
    obtain ⟨added, he, hadded⟩ := strategicItems_single_touched h hid.scalar hd
    have hn' : ∀ item ∈ strategicItems (some key) (front ++ tail) [change], item.NamesDiffer :=
      namesDiffer_single hc hn
    have hd' := hd.single hk hc h hid hn
    rw [he, List.filterMap_append, List.append_assoc] at hn' hd'
    obtain ⟨more, hmore, hnamed⟩ := ih hrest _ _ hn' hd'
    refine ⟨more, ?_, ?_⟩
    · rw [strategicItems_cons_eq, he, List.filterMap_append, List.append_assoc, hmore,
        List.filterMap_filterMap]
      congr 1
      refine List.filterMap_congr fun item hm => ?_
      exact (inPlace_cons hk hc h hid.scalar (hn item (List.mem_append_left _ hm)) rest).symm
    · have hchange {item : Json} {found : Option Json} (hf : ∀ old ∈ found, old.NamesDiffer)
          (ha : itemAfter found change = some item) : namedBy key (change :: rest) item = true :=
        namedBy_of_identity List.mem_cons_self h
          (hasIdentity_of_get? hid (itemAfter_get? hk hc h hid.scalar hf ha))
      intro item hm
      rcases hnamed item hm with hm | hm
      · rcases List.mem_append.mp hm with hm | hm
        · obtain ⟨before, hbefore, ht⟩ := List.mem_filterMap.mp hm
          by_cases hf : HasIdentity key before id
          · have hnames := hn before (List.mem_append_right _ hbefore)
            exact .inr (hchange (by simpa using hnames) (touched_of_identity hf ▸ ht))
          · obtain rfl := Option.some.inj ((touched_of_not hf).symm.trans ht)
            exact .inl hbefore
        · rcases hadded with rfl | rfl
          · cases hm
          · exact .inr (hchange (by simp) (Option.mem_toList.mp hm))
      · exact .inr (List.any_eq_true.mpr
          ((List.any_eq_true.mp hm).imp fun _ hl => ⟨List.mem_cons_of_mem _ hl.1, hl.2⟩))

/-! ## A keyed list after a patch -/

/-- The last item that names an identity decides whether it is there. -/
theorem isSome_foldl_itemAfter {changes : List Json} (hl : changes.getLast? = some last)
    (found : Option Json) :
    (changes.foldl itemAfter found).isSome = true ↔ last.isDelete = false := by
  obtain ⟨init, rfl⟩ := List.getLast?_eq_some_iff.mp hl
  rw [List.foldl_append, List.foldl_cons, List.foldl_nil]
  cases hd : last.isDelete <;> simp [itemAfter, hd]

/-- A keyed list after a patch for it. Identities differ as before; what the patch does not name is
the same, in the same order; items that are never removed stay in front, in their order, and behind
them is only what the patch names; an identity that is named is there exactly if the last item that
names it does not ask for removal; and its item depends on the one it had and on the items that name
it alone. -/
theorem keyed_list_merged (hk : mergeKey? list = some key) (hb : (arr base).WellFormed)
    (hi : (arr items).WellFormed) (hd : IdentitiesDiffer key base)
    (hs : ∀ change ∈ items, ∃ id, change.get? key = some id ∧ IsIdentity id) :
    let result := strategicItems (mergeKey? list) base items
    IdentitiesDiffer key result ∧
      (result.filter fun item => !namedBy key items item) =
        (base.filter fun item => !namedBy key items item) ∧
      (∃ added, result = base.filterMap (inPlace key items) ++ added ∧
        ∀ item ∈ added, namedBy key items item = true) ∧
      (∀ id last, (naming key items id).getLast? = some last →
        ((∃ item ∈ result, HasIdentity key item id) ↔ last.isDelete = false)) ∧
      ∀ id, identified? key result id =
        (naming key items id).foldl itemAfter (identified? key base id) := by
  have hne : key ≠ directiveName := ne_directiveName_of_mergeKey? hk
  have hn : ∀ item ∈ base, item.NamesDiffer :=
    fun item hm => (wellFormed_arr.mp hb item hm).namesDiffer
  have hc : ∀ change ∈ items, Identified key change :=
    fun change hm => ⟨(wellFormed_arr.mp hi change hm).namesDiffer, hs change hm⟩
  rw [hk]
  have hfound := identified?_strategicItems hne hc hn (.inr hd)
  have hkept := strategicItems_inPlace hne hc base [] (by simpa using hn) (by simpa using hd)
  rw [List.append_nil] at hkept
  refine ⟨identitiesDiffer_strategicItems hne hc hn hd,
    filter_unnamed hne items (List.Subset.refl _) hc hn, ?_, fun id last hl => ?_, hfound⟩
  · obtain ⟨added, he, hadded⟩ := hkept
    exact ⟨added, he, fun item hm => (hadded item hm).resolve_left List.not_mem_nil⟩
  · rw [← isSome_foldl_itemAfter hl (identified? key base id), ← hfound id, ← not_iff_not,
      Bool.not_eq_true, Option.isSome_eq_false_iff, Option.isNone_iff_eq_none,
      identified?_eq_none]
    push Not
    rfl

/-- One interface is merged and removed, another removed and named again, a third is new; one has no
name, and one is not named by the patch. -/
theorem interfaces_named_again :
    let interface (name : String) (more : Members Json) : Json :=
      .obj (("interface", .str name) :: more)
    let delete : String × Json := (directiveName, .str "delete")
    let base := [interface "eth0" [("mtu", .int 1500)], .obj [("dhcp", .bool true)],
      interface "eth1" [("dhcp", .bool true)], interface "eth2" []]
    let items := [interface "eth1" [("mtu", .int 1500)], interface "eth0" [delete],
      interface "eth3" [], interface "eth0" [("dhcp", .bool false)],
      interface "eth1" [("mtu", .int 9000)], interface "eth3" [delete]]
    let result := strategicItems (mergeKey? "interfaces") base items
    mergeKey? "interfaces" = some "interface" ∧ (arr base).WellFormed ∧ (arr items).WellFormed ∧
      IdentitiesDiffer "interface" base ∧
      (∀ change ∈ items, ∃ id, change.get? "interface" = some id ∧ IsIdentity id) ∧
      IdentitiesDiffer "interface" result ∧
      ((∃ item ∈ result, HasIdentity "interface" item (.str "eth3")) ↔ true = false) ∧
      result = [.obj [("dhcp", .bool true)],
        interface "eth1" [("dhcp", .bool true), ("mtu", .int 9000)], interface "eth2" [],
        interface "eth0" [("dhcp", .bool false)]] := by
  intro interface delete base items result
  have hb : (arr base).WellFormed := by
    simp [base, interface, WellFormed, WellFormedItems, WellFormedMembers, Members.keys]
  have hi : (arr items).WellFormed := by
    simp [items, interface, delete, directiveName, WellFormed, WellFormedItems, WellFormedMembers,
      Members.keys]
  have hd : IdentitiesDiffer "interface" base := by
    simp [base, interface, IdentitiesDiffer, HasIdentity, get?, Json.members, Members.get?]
    decide
  have hs : ∀ change ∈ items, ∃ id, change.get? "interface" = some id ∧ IsIdentity id := by
    simp [items, interface, get?, Json.members, Members.get?, isIdentity_str]
  have hk : mergeKey? "interfaces" = some "interface" := rfl
  have hmerged := keyed_list_merged hk hb hi hd hs
  exact ⟨hk, hb, hi, hd, hs, hmerged.1, hmerged.2.2.2.1 (.str "eth3") _ rfl, rfl⟩

end ClusterConfig.Json
