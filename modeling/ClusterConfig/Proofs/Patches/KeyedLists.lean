import ClusterConfig.Json.StrategicMerge
import ClusterConfig.Proofs.Documents.Unordered

/-!
# Lists whose items have identities

Merged into a list, even an empty one, items are merged with those of their identity, and one that
asks for removal is not taken up. Where the list is missing, the items are inserted as they stand.
The two agree exactly if the list would take up every item on its own.
-/

set_option autoImplicit false

namespace ClusterConfig.Json

variable {members changes : Members Json} {name key : String} {change item : Json}
  {items old : List Json}

/-! ## What is found after a merge -/

/-- The value of a member after a patch value for it, if it is there then. -/
def memberAfter (name : String) (old : Option Json) (change : Json) : Option Json :=
  if name = directiveName then old
  else if change.isDelete then none
  else some (match old with
    | none => withoutDirectives change
    | some old => mergeValue name old change)

/-- After a merge, a member is what its own patch value makes of it. -/
theorem get?_strategicMembers (hm : (Members.keys members).Nodup)
    (hc : (Members.keys changes).Nodup) (name : String) :
    Members.get? (strategicMembers members changes) name =
      match Members.get? changes name with
      | none => Members.get? members name
      | some change => memberAfter name (Members.get? members name) change := by
  induction changes generalizing members with
  | nil => rw [strategicMembers]; rfl
  | cons entry rest ih =>
    obtain ⟨first, change⟩ := entry
    obtain ⟨hfirst, hrest⟩ := List.nodup_cons.mp hc
    have hnone : Members.get? rest first = none := Members.get?_eq_none_iff.mpr hfirst
    rw [strategicMembers, Members.get?]
    by_cases hn : first = name
    · subst hn
      rw [if_pos rfl]
      dsimp only [memberAfter]
      split
      · rw [ih hm hrest, hnone]
      · split
        · rw [ih (Members.nodup_remove hm first) hrest, hnone, Members.get?_remove_same hm]
        · rw [ih (Members.nodup_put hm first _) hrest, hnone]
          exact Members.get?_put_same _ _ _
    · rw [if_neg hn]
      split
      · rw [ih hm hrest]
      · split
        · rw [ih (Members.nodup_remove hm first) hrest,
            Members.get?_remove_other hm fun e => hn e.symm]
        · rw [ih (Members.nodup_put hm first _) hrest,
            Members.get?_put_other _ _ fun e => hn e.symm]

/-! ## Items -/

theorem plainItems_eq_map (items : List Json) : plainItems items = items.map withoutDirectives := by
  induction items with
  | nil => rfl
  | cons item rest ih => rw [plainItems, ih, List.map_cons]

/-- Whether an item has an identity, by the member `key`. -/
def HasIdentity (key : String) (item id : Json) : Prop := (item.get? key == some id) = true

/-- Items that a list takes up each on its own: one with an identity does not ask for removal, and
none before it has its identity. -/
structure Separate (key : String) (items : List Json) : Prop where
  stay : ∀ item ∈ items, ∀ id, item.get? key = some id → item.isDelete = false
  distinct : items.Pairwise fun before item =>
    ∀ id, item.get? key = some id → ¬ HasIdentity key before.withoutDirectives id

/-- The items have other identities than those of a list. -/
def NewTo (key : String) (old items : List Json) : Prop :=
  ∀ item ∈ items, ∀ id, item.get? key = some id → ∀ other ∈ old, ¬ HasIdentity key other id

/-- A list takes up an item on its own. -/
def TakesUp (key : String) (old : List Json) (item : Json) : Prop :=
  ∀ id, item.get? key = some id →
    item.isDelete = false ∧ ∀ other ∈ old, ¬ HasIdentity key other id

theorem findIdx?_identity {id : Json} :
    (old.findIdx? fun other => other.get? key == some id) = none ↔
      ∀ other ∈ old, ¬ HasIdentity key other id := by
  simp [List.findIdx?_eq_none_iff, HasIdentity]

/-- An item is taken up on its own, or the list does not grow by it. -/
theorem strategicItems_cons (key : String) (old : List Json) (item : Json) (rest : List Json) :
    (TakesUp key old item ∧ strategicItems (some key) old (item :: rest) =
      strategicItems (some key) (old ++ [item.withoutDirectives]) rest) ∨
    (¬ TakesUp key old item ∧ ∃ after, after.length ≤ old.length ∧
      strategicItems (some key) old (item :: rest) = strategicItems (some key) after rest) := by
  rw [strategicItems, Option.bind_some]
  cases hid : item.get? key with
  | none => exact .inl ⟨fun id h => by simp [hid] at h, rfl⟩
  | some id =>
    dsimp only [Option.map_some]
    cases hfound : old.findIdx? fun other => other.get? key == some id with
    | some place =>
      right
      refine ⟨fun h => ?_, ?_⟩
      · rw [findIdx?_identity.mpr (h id hid).2] at hfound
        cases hfound
      · cases item.isDelete with
        | true => exact ⟨_, List.length_eraseIdx_le old place, rfl⟩
        | false => exact ⟨_, (List.length_modify ..).le, rfl⟩
    | none =>
      cases hdelete : item.isDelete with
      | true =>
        refine .inr ⟨fun h => ?_, old, Nat.le_refl _, rfl⟩
        rw [(h id hid).1] at hdelete
        cases hdelete
      | false =>
        refine .inl ⟨fun other h => ?_, rfl⟩
        obtain rfl : id = other := Option.some.inj (hid.symm.trans h)
        exact ⟨hdelete, findIdx?_identity.mp hfound⟩

theorem length_strategicItems_le (key : String) (old items : List Json) :
    (strategicItems (some key) old items).length ≤ old.length + items.length := by
  induction items generalizing old with
  | nil => rw [strategicItems]; exact Nat.le_refl _
  | cons item rest ih =>
    rw [List.length_cons]
    rcases strategicItems_cons key old item rest with ⟨-, he⟩ | ⟨-, after, hle, he⟩
    · have := ih (old ++ [item.withoutDirectives])
      rw [List.length_append, List.length_singleton] at this
      rw [he]
      omega
    · have := ih after
      rw [he]
      omega

theorem takesUp_and_rest : NewTo key old (item :: items) ∧ Separate key (item :: items) ↔
    TakesUp key old item ∧ NewTo key (old ++ [item.withoutDirectives]) items ∧
      Separate key items := by
  constructor
  · rintro ⟨hn, hs⟩
    obtain ⟨hfirst, hrest⟩ := List.pairwise_cons.mp hs.distinct
    refine ⟨fun id h => ⟨hs.stay item List.mem_cons_self id h, hn item List.mem_cons_self id h⟩,
      fun later hl id h other ho => ?_, fun later hl => hs.stay later (List.mem_cons_of_mem _ hl),
      hrest⟩
    rcases List.mem_append.mp ho with ho | ho
    · exact hn later (List.mem_cons_of_mem _ hl) id h other ho
    · rw [List.mem_singleton.mp ho]
      exact hfirst later hl id h
  · rintro ⟨ht, hn, hs⟩
    refine ⟨fun later hl id h other ho => ?_, fun later hl id h => ?_,
      List.pairwise_cons.mpr ⟨fun later hl id h => ?_, hs.distinct⟩⟩
    · rcases List.mem_cons.mp hl with rfl | hl
      · exact (ht id h).2 other ho
      · exact hn later hl id h other (List.mem_append_left _ ho)
    · rcases List.mem_cons.mp hl with rfl | hl
      · exact (ht id h).1
      · exact hs.stay later hl id h
    · exact hn later hl id h _ (List.mem_append_right _ (List.mem_singleton_self _))

/-- A list grows by as many items as there are exactly if it takes up each on its own. -/
theorem length_strategicItems_iff (key : String) (old items : List Json) :
    (strategicItems (some key) old items).length = old.length + items.length ↔
      NewTo key old items ∧ Separate key items := by
  induction items generalizing old with
  | nil =>
    rw [strategicItems]
    exact ⟨fun _ => ⟨by simp [NewTo], by simp, .nil⟩, fun _ => rfl⟩
  | cons item rest ih =>
    rw [takesUp_and_rest, ← ih]
    rcases strategicItems_cons key old item rest with ⟨ht, he⟩ | ⟨ht, after, hle, he⟩
    · rw [he, List.length_append, List.length_singleton, List.length_cons]
      exact ⟨fun h => ⟨ht, by omega⟩, fun h => by have := h.2; omega⟩
    · have := length_strategicItems_le key after rest
      rw [he, List.length_cons]
      exact ⟨fun h => by omega, fun h => absurd h.1 ht⟩

/-- Items that are taken up each on its own stand behind those that were there. -/
theorem strategicItems_of_separate (hn : NewTo key old items) (hs : Separate key items) :
    strategicItems (some key) old items = old ++ plainItems items := by
  induction items generalizing old with
  | nil => rw [strategicItems, plainItems, List.append_nil]
  | cons item rest ih =>
    obtain ⟨ht, hn, hs⟩ := takesUp_and_rest.mp ⟨hn, hs⟩
    rcases strategicItems_cons key old item rest with ⟨-, he⟩ | ⟨hnot, -⟩
    · rw [he, ih hn hs, plainItems, List.append_assoc, List.singleton_append]
    · exact absurd ht hnot

theorem newTo_nil (key : String) (items : List Json) : NewTo key [] items := by
  simp [NewTo]

/-- A list that is inserted is alike one that is merged into the empty list exactly if each item is
taken up on its own. -/
theorem inserted_alike_iff (key : String) (items : List Json) :
    (arr (plainItems items)).Alike (arr (strategicItems (some key) [] items)) ↔
      Separate key items := by
  constructor
  · intro h
    have hlength := alike_arr_length h
    rw [plainItems_eq_map, List.length_map] at hlength
    refine ((length_strategicItems_iff key [] items).mp ?_).2
    rw [← hlength, List.length_nil, Nat.zero_add]
  · intro h
    rw [strategicItems_of_separate (newTo_nil key items) h, List.nil_append]
    exact Alike.refl _

/-! ## A list that is missing -/

theorem mergeKey?_ne_directive {list : String} (h : mergeKey? list = some key) :
    list ≠ directiveName := by
  rintro rfl
  cases h

theorem memberAfter_missing {list : String} (hk : mergeKey? list = some key) :
    memberAfter list none (arr items) = some (arr (plainItems items)) := by
  rw [memberAfter, if_neg (mergeKey?_ne_directive hk)]
  rfl

theorem memberAfter_empty {list : String} (hk : mergeKey? list = some key) :
    memberAfter list (some (arr [])) (arr items) =
      some (arr (strategicItems (some key) [] items)) := by
  rw [memberAfter, if_neg (mergeKey?_ne_directive hk), ← hk]
  rfl

/-- A patch list for a keyed list that is missing: every other member is as if the list were there
and empty, and the list itself is exactly if each item is taken up on its own. -/
theorem missing_list_as_empty_iff {list : String} (hb : (obj members).WellFormed)
    (hp : (obj changes).WellFormed) (hk : mergeKey? list = some key)
    (hm : Members.get? members list = none) (hi : Members.get? changes list = some (arr items)) :
    let missing := strategicMerge (obj members) (obj changes)
    let empty := strategicMerge (obj (Members.put members list (arr []))) (obj changes)
    (∀ name, name ≠ list → missing.get? name = empty.get? name) ∧
      missing.get? list = some (arr (plainItems items)) ∧
      empty.get? list = some (arr (strategicItems (some key) [] items)) ∧
      (missing.Alike empty ↔ Separate key items) := by
  have hbefore := (wellFormed_obj.mp hb).1
  have hchanges := (wellFormed_obj.mp hp).1
  have hmissing := get?_strategicMembers hbefore hchanges
  have hempty := get?_strategicMembers (Members.nodup_put hbefore list (arr [])) hchanges
  have hother : ∀ name, name ≠ list → Members.get? (strategicMembers members changes) name =
      Members.get? (strategicMembers (Members.put members list (arr [])) changes) name := by
    intro name hn
    rw [hmissing, hempty, Members.get?_put_other _ _ hn]
  have hlist : Members.get? (strategicMembers members changes) list =
      some (arr (plainItems items)) := by
    rw [hmissing, hi, hm]
    exact memberAfter_missing hk
  have hlist' : Members.get? (strategicMembers (Members.put members list (arr [])) changes) list =
      some (arr (strategicItems (some key) [] items)) := by
    rw [hempty, hi, Members.get?_put_same]
    exact memberAfter_empty hk
  refine ⟨hother, hlist, hlist', ?_⟩
  rw [← inserted_alike_iff, strategicMerge, strategicMerge, alike_obj]
  constructor
  · intro h
    have := h list
    rw [hlist, hlist'] at this
    exact Option.some.inj this
  · intro h name
    by_cases hn : name = list
    · rw [hn, hlist, hlist']
      exact congrArg some h
    · rw [hother name hn]

/-- A patch for the list of interfaces. -/
def interfacesPatch (items : List Json) : Members Json := [("interfaces", arr items)]

theorem interfaces_of_other_names :
    let items : List Json := [.obj [("interface", .str "eth0")], .obj [("interface", .str "eth1")]]
    let changes := interfacesPatch items
    (obj []).WellFormed ∧ (obj changes).WellFormed ∧
      mergeKey? "interfaces" = some "interface" ∧
      Members.get? changes "interfaces" = some (arr items) ∧
      Separate "interface" items ∧
      (strategicMerge (obj []) (obj changes)).Alike
        (strategicMerge (obj [("interfaces", arr [])]) (obj changes)) := by
  intro items changes
  have hb : (obj []).WellFormed := by simp [WellFormed, WellFormedMembers, Members.keys]
  have hp : (obj changes).WellFormed := by
    simp [changes, items, interfacesPatch, WellFormed, WellFormedMembers, WellFormedItems,
      Members.keys]
  have hs : Separate "interface" items := (inserted_alike_iff "interface" items).mp rfl
  exact ⟨hb, hp, rfl, rfl, hs, (missing_list_as_empty_iff hb hp rfl rfl rfl).2.2.2.mpr hs⟩

/-- Where the list is missing, an item that asks for its removal is inserted. -/
theorem removed_item_inserted :
    let changes :=
      interfacesPatch [.obj [("interface", .str "eth1"), (directiveName, .str "delete")]]
    strategicMerge (obj []) (obj changes) =
        obj [("interfaces", arr [.obj [("interface", .str "eth1")]])] ∧
      strategicMerge (obj [("interfaces", arr [])]) (obj changes) = obj [("interfaces", arr [])] ∧
      ¬ (strategicMerge (obj []) (obj changes)).Alike
        (strategicMerge (obj [("interfaces", arr [])]) (obj changes)) := by
  intro changes
  refine ⟨rfl, rfl, fun h => ?_⟩
  have := alike_obj.mp h "interfaces"
  exact absurd (alike_arr_length (Option.some.inj this)) (by decide)

end ClusterConfig.Json
