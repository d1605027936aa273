import ClusterConfig.Proofs.Patches.KeyedLists

/-!
# Items by their identities

A list takes up the items of a patch one after the other, so what a patch does to it is known from
what one item does. An item finds the first one of its identity and is merged into it or removes it;
where there is none, it is added at the end or, asking for removal, leaves the list alone. No item
changes the identity of the one it is merged into.
-/

set_option autoImplicit false

namespace ClusterConfig

/-! ## Scalars that are equal -/

namespace Binary64

variable {x y : Binary64}

theorem same_comm (x y : Binary64) : x.same y = y.same x := by
  rw [Bool.eq_iff_iff]
  simp only [same, Bool.and_eq_true, Bool.or_eq_true, beq_iff_eq, Bool.not_eq_true']
  tauto

/-- The two zeros are equal to the same numbers. -/
theorem same_zero (h : x.magnitude = 0) (z : Binary64) : z.same x = (z.magnitude == 0) := by
  have hx : x.isNaN = false := by simp [isNaN, h, infiniteMagnitude]
  rw [Bool.eq_iff_iff]
  simp only [same, hx, h, Bool.and_eq_true, Bool.or_eq_true, beq_iff_eq, Bool.not_eq_true']
  constructor
  · rintro ⟨-, hb | hz⟩
    · rw [magnitude, hb]
      exact h
    · exact hz.1
  · intro hz
    exact ⟨⟨by simp [isNaN, hz, infiniteMagnitude], trivial⟩, .inr ⟨hz, trivial⟩⟩

theorem same_congr (h : x.same y = true) (z : Binary64) : z.same x = z.same y := by
  have hb := h
  simp only [same, Bool.and_eq_true, Bool.or_eq_true, beq_iff_eq] at hb
  rcases hb.2 with hbits | ⟨hx, hy⟩
  · obtain rfl : x = y := by
      cases x
      cases y
      exact congrArg mk hbits
    rfl
  · rw [same_zero hx, same_zero hy]

end Binary64

namespace Json

variable {key : String} {id own change found item : Json}
  {old items before after : List Json} {members changes : Members Json}

theorem same_comm (hs : id.isScalar = true) (a : Json) : a.same id = id.same a := by
  cases id <;> cases a <;> simp [isScalar] at hs <;> simp [same, Binary64.same_comm, BEq.comm]

theorem same_congr (hs : id.isScalar = true) (h : own.same id = true) (x : Json) :
    x.same own = x.same id := by
  cases id <;> cases own <;> simp [isScalar, same] at hs h
  case float.float => cases x <;> simp [same, Binary64.same_congr h]
  all_goals simp [h]

/-! ## Identities -/

/-- What identifies an item: a scalar equal to itself, as all are but a float that is no number. -/
structure IsIdentity (id : Json) : Prop where
  scalar : id.isScalar = true
  equal : id.same id = true

theorem isIdentity_str (text : String) : IsIdentity (.str text) := ⟨rfl, by simp [same]⟩

theorem hasIdentity_iff : HasIdentity key item id ↔
    ∃ own, item.get? key = some own ∧ own.same id = true := by
  unfold HasIdentity
  cases item.get? key with
  | none => simp
  | some own => simp only [Option.some.injEq, exists_eq_left']; rfl

theorem hasIdentity_of_get? (hid : IsIdentity id) (h : item.get? key = some id) :
    HasIdentity key item id :=
  hasIdentity_iff.mpr ⟨id, h, hid.equal⟩

/-- Values equal to an identity identify the same items. -/
theorem beq_congr (hs : id.isScalar = true) (h : own.same id = true) (found : Option Json) :
    (found == some own) = (found == some id) := by
  cases found with
  | none => rfl
  | some x => exact same_congr hs h x

/-- An item of an identity has all identities that equal it, and no other. -/
theorem HasIdentity.iff (h : HasIdentity key found id) (hs : id.isScalar = true) (other : Json) :
    HasIdentity key found other ↔ id.same other = true := by
  obtain ⟨own, hown, hsame⟩ := hasIdentity_iff.mp h
  have hscalar : own.isScalar = true := by
    cases id <;> cases own <;> simp [isScalar, same] at hs hsame ⊢
  have hequal : own.same other = id.same other := by
    rw [← same_comm hs, ← same_comm hscalar, same_congr hs hsame]
  rw [hasIdentity_iff, hown]
  simp [hequal]

theorem ne_directiveName_of_mergeKey? {list : String} (h : mergeKey? list = some key) :
    key ≠ directiveName := by
  have hmem : (list, key) ∈
      [("interfaces", "interface"), ("vlans", "vlanId"), ("modules", "name")] :=
    Members.mem_of_get? h
  rintro rfl
  simp [directiveName] at hmem

/-- No two items of a list have one identity. -/
def IdentitiesDiffer (key : String) (list : List Json) : Prop :=
  list.Pairwise fun before item => ∀ id, item.get? key = some id → ¬ HasIdentity key before id

/-- The first item of an identity. -/
def identified? (key : String) (list : List Json) (id : Json) : Option Json :=
  list.find? fun item => item.get? key == some id

theorem identified?_eq_none :
    identified? key old id = none ↔ ∀ item ∈ old, ¬ HasIdentity key item id := by
  simp [identified?, HasIdentity]

theorem identified?_eq_some : identified? key old id = some found ↔
    HasIdentity key found id ∧ ∃ before after, old = before ++ found :: after ∧
      ∀ item ∈ before, ¬ HasIdentity key item id := by
  simp [identified?, HasIdentity, List.find?_eq_some_iff_append]

theorem identified?_append (key : String) (old more : List Json) (id : Json) :
    identified? key (old ++ more) id = (identified? key old id).or (identified? key more id) :=
  List.find?_append

theorem identified?_cons_of_identity (h : HasIdentity key item id) (rest : List Json) :
    identified? key (item :: rest) id = some item :=
  List.find?_cons_of_pos h

theorem identified?_cons_of_not (h : ¬ HasIdentity key item id) (rest : List Json) :
    identified? key (item :: rest) id = identified? key rest id :=
  List.find?_cons_of_neg h

theorem identified?_congr (hs : id.isScalar = true) (h : own.same id = true) (list : List Json) :
    identified? key list own = identified? key list id :=
  congrArg (fun p => list.find? p) (funext fun item => beq_congr hs h (item.get? key))

/-! ## Names -/

/-- No name comes twice among the members of the document itself. -/
def NamesDiffer (doc : Json) : Prop := (Members.keys doc.members).Nodup

theorem WellFormed.namesDiffer {doc : Json} (h : doc.WellFormed) : doc.NamesDiffer := by
  cases doc with
  | obj members => exact h.1
  | _ => exact List.nodup_nil

theorem keys_plainMembers_sublist (changes : Members Json) :
    (Members.keys (plainMembers changes)).Sublist (Members.keys changes) := by
  induction changes with
  | nil => exact List.Sublist.refl _
  | cons entry rest ih =>
    rw [plainMembers]
    split
    · exact ih.cons entry.1
    · exact ih.cons_cons entry.1

theorem namesDiffer_withoutDirectives (h : change.NamesDiffer) :
    change.withoutDirectives.NamesDiffer := by
  cases change with
  | obj changes => exact h.sublist (keys_plainMembers_sublist changes)
  | _ => exact List.nodup_nil

theorem nodup_strategicMembers (hm : (Members.keys members).Nodup) (changes : Members Json) :
    (Members.keys (strategicMembers members changes)).Nodup := by
  induction changes generalizing members with
  | nil => exact hm
  | cons entry rest ih =>
    rw [strategicMembers]
    split
    · exact ih hm
    · split
      · exact ih (Members.nodup_remove hm entry.1)
      · exact ih (Members.nodup_put hm entry.1 _)

theorem namesDiffer_strategicMerge (hf : found.NamesDiffer) (hc : change.NamesDiffer) :
    (strategicMerge found change).NamesDiffer := by
  cases change with
  | obj changes =>
    cases found with
    | obj members => exact nodup_strategicMembers hf changes
    | _ => exact namesDiffer_withoutDirectives hc
  | _ => exact namesDiffer_withoutDirectives hc

/-! ## What a patch item leaves in the place of its identity -/

theorem isDelete_of_isScalar (h : id.isScalar = true) : id.isDelete = false := by
  cases id <;> simp [isScalar] at h <;> rfl

theorem withoutDirectives_of_isScalar (h : id.isScalar = true) : id.withoutDirectives = id := by
  cases id <;> simp [isScalar] at h <;> rfl

theorem mergeValue_of_isScalar (h : id.isScalar = true) (name : String) (old : Json) :
    mergeValue name old id = id := by
  cases id <;> simp [isScalar] at h <;> simp only [mergeValue, withoutDirectives]

theorem get?_plainMembers (hc : (Members.keys changes).Nodup) (name : String) :
    Members.get? (plainMembers changes) name =
      (Members.get? changes name).bind fun change => memberAfter name none change := by
  induction changes with
  | nil => rfl
  | cons entry rest ih =>
    obtain ⟨first, change⟩ := entry
    obtain ⟨hfirst, hrest⟩ := List.nodup_cons.mp hc
    rw [plainMembers, Members.get?]
    by_cases hn : first = name
    · subst hn
      have hnone : Members.get? (plainMembers rest) first = none := by
        rw [ih hrest, Members.get?_eq_none_iff.mpr hfirst]
        rfl
      rw [if_pos rfl, Option.bind_some, memberAfter]
      by_cases hd : first = directiveName
      · rw [if_pos (by simp [hd]), if_pos hd, hnone]
      · by_cases hx : change.isDelete = true
        · rw [if_pos (by simp [hx]), if_neg hd, if_pos hx, hnone]
        · rw [if_neg (by simp [hd, hx]), if_neg hd, if_neg hx, Members.get?, if_pos rfl]
    · rw [if_neg hn]
      split
      · exact ih hrest
      · rw [Members.get?, if_neg hn, ih hrest]

theorem get?_withoutDirectives (hk : key ≠ directiveName) (hc : change.NamesDiffer)
    (h : change.get? key = some id) (hs : id.isScalar = true) :
    change.withoutDirectives.get? key = some id := by
  cases change with
  | obj changes =>
    have hget : Members.get? changes key = some id := h
    have hnodup : (Members.keys changes).Nodup := hc
    have hplain := get?_plainMembers hnodup key
    rw [hget, Option.bind_some, memberAfter, if_neg hk, isDelete_of_isScalar hs,
      if_neg Bool.false_ne_true, withoutDirectives_of_isScalar hs] at hplain
    exact hplain
  | _ => cases h

theorem get?_strategicMerge (hk : key ≠ directiveName) (hf : found.NamesDiffer)
    (hc : change.NamesDiffer) (h : change.get? key = some id) (hs : id.isScalar = true) :
    (strategicMerge found change).get? key = some id := by
  cases change with
  | obj changes =>
    cases found with
    | obj members =>
      have hget : Members.get? changes key = some id := h
      have hbefore : (Members.keys members).Nodup := hf
      have hchanges : (Members.keys changes).Nodup := hc
      have hmerged := get?_strategicMembers hbefore hchanges key
      rw [hget] at hmerged
      dsimp only [memberAfter] at hmerged
      rw [if_neg hk, isDelete_of_isScalar hs, if_neg Bool.false_ne_true] at hmerged
      refine hmerged.trans ?_
      cases Members.get? members key with
      | none => exact congrArg some (withoutDirectives_of_isScalar hs)
      | some old => exact congrArg some (mergeValue_of_isScalar hs key old)
    | _ => exact get?_withoutDirectives hk hc h hs
  | _ => cases h

/-- What a patch item makes of the item of its identity, or of none. -/
def itemAfter (found : Option Json) (change : Json) : Option Json :=
  if change.isDelete then none
  else some (match found with
    | none => withoutDirectives change
    | some old => strategicMerge old change)

theorem itemAfter_eq_none_iff (found : Option Json) :
    itemAfter found change = none ↔ change.isDelete = true := by
  unfold itemAfter
  split <;> simp_all

/-- A patch item by whose identity a list knows where to put it. -/
structure Identified (key : String) (change : Json) : Prop where
  names : change.NamesDiffer
  identity : ∃ id, change.get? key = some id ∧ IsIdentity id

theorem itemAfter_eq_some {found : Option Json} (h : itemAfter found change = some item) :
    (found = none ∧ item = change.withoutDirectives) ∨
      ∃ old, found = some old ∧ item = strategicMerge old change := by
  unfold itemAfter at h
  split at h
  · cases h
  · cases found with
    | none => exact .inl ⟨rfl, (Option.some.inj h).symm⟩
    | some old => exact .inr ⟨old, rfl, (Option.some.inj h).symm⟩

/-- Whatever a patch item leaves has its identity. -/
theorem itemAfter_get? (hk : key ≠ directiveName) (hc : change.NamesDiffer)
    (h : change.get? key = some id) (hs : id.isScalar = true) {found : Option Json}
    (hf : ∀ old ∈ found, old.NamesDiffer) (ha : itemAfter found change = some item) :
    item.get? key = some id := by
  rcases itemAfter_eq_some ha with ⟨-, rfl⟩ | ⟨old, rfl, rfl⟩
  · exact get?_withoutDirectives hk hc h hs
  · exact get?_strategicMerge hk (hf old rfl) hc h hs

/-! ## One item -/

theorem strategicItems_append (key : Option String) (old items more : List Json) :
    strategicItems key old (items ++ more) =
      strategicItems key (strategicItems key old items) more := by
  induction items generalizing old with
  | nil => rfl
  | cons item rest ih =>
    rw [List.cons_append, strategicItems, strategicItems]
    split
    · exact ih _
    · split <;> split <;> exact ih _

theorem strategicItems_cons_eq (key : Option String) (old : List Json) (item : Json)
    (rest : List Json) : strategicItems key old (item :: rest) =
      strategicItems key (strategicItems key old [item]) rest :=
  strategicItems_append key old [item] rest

/-- Where a patch item leaves what it makes of the item of its identity. -/
theorem strategicItems_single (h : change.get? key = some id) (old : List Json) :
    (∃ before found after, old = before ++ found :: after ∧ HasIdentity key found id ∧
      (∀ item ∈ before, ¬ HasIdentity key item id) ∧
      strategicItems (some key) old [change] =
        before ++ ((itemAfter (some found) change).toList ++ after)) ∨
    ((∀ item ∈ old, ¬ HasIdentity key item id) ∧
      strategicItems (some key) old [change] = old ++ (itemAfter none change).toList) := by
  rw [strategicItems, Option.bind_some, h]
  dsimp only [Option.map_some]
  cases hfound : identified? key old id with
  | none =>
    have hnone := identified?_eq_none.mp hfound
    rw [findIdx?_identity.mpr hnone]
    right
    refine ⟨hnone, ?_⟩
    cases hd : change.isDelete <;> simp [strategicItems, itemAfter, hd]
  | some found =>
    obtain ⟨hid, before, after, rfl, hbefore⟩ := identified?_eq_some.mp hfound
    have hplace : (before ++ found :: after).findIdx?
        (fun candidate => candidate.get? key == some id) = some before.length := by
      rw [List.findIdx?_append, findIdx?_identity.mpr hbefore, List.findIdx?_cons,
        if_pos (show (found.get? key == some id) = true from hid)]
      simp
    rw [hplace]
    left
    refine ⟨before, found, after, rfl, hid, hbefore, ?_⟩
    cases hd : change.isDelete with
    | true => simp [strategicItems, itemAfter, hd, List.eraseIdx_append_of_length_le]
    | false => simp [strategicItems, itemAfter, hd, List.modify_eq_set_getElem?]

/-- An item of the list afterwards was there, is a new one, or was merged with the patch item. -/
theorem mem_strategicItems_single {key : Option String}
    (h : item ∈ strategicItems key old [change]) :
    item ∈ old ∨ item = change.withoutDirectives ∨
      ∃ found ∈ old, item = strategicMerge found change := by
  cases hid : key.bind fun name => (change.get? name).map fun id => (name, id) with
  | none =>
    rw [strategicItems, hid] at h
    exact (List.mem_append.mp h).imp_right fun hm => .inl (List.mem_singleton.mp hm)
  | some named =>
    obtain ⟨name, rfl, hname⟩ := Option.bind_eq_some_iff.mp hid
    obtain ⟨id, hid, -⟩ := Option.map_eq_some_iff.mp hname
    rcases strategicItems_single hid old with ⟨before, found, after, rfl, -, -, he⟩ | ⟨-, he⟩
    · simp only [he, List.mem_append, Option.mem_toList] at h
      rcases h with hb | hm | ha
      · exact .inl (List.mem_append_left _ hb)
      · rcases itemAfter_eq_some hm with ⟨hn, -⟩ | ⟨old, hf, rfl⟩
        · cases hn
        · obtain rfl := Option.some.inj hf
          exact .inr (.inr ⟨found, List.mem_append_right _ List.mem_cons_self, rfl⟩)
      · exact .inl (List.mem_append_right _ (List.mem_cons_of_mem _ ha))
    · simp only [he, List.mem_append, Option.mem_toList] at h
      rcases h with hm | hm
      · exact .inl hm
      · rcases itemAfter_eq_some hm with ⟨-, rfl⟩ | ⟨old, hf, -⟩
        · exact .inr (.inl rfl)
        · cases hf

theorem namesDiffer_single (hc : change.NamesDiffer) (hn : ∀ item ∈ old, item.NamesDiffer)
    {key : Option String} : ∀ item ∈ strategicItems key old [change], item.NamesDiffer := by
  intro item h
  rcases mem_strategicItems_single h with hm | rfl | ⟨found, hm, rfl⟩
  · exact hn item hm
  · exact namesDiffer_withoutDirectives hc
  · exact namesDiffer_strategicMerge (hn found hm) hc

theorem identified?_toList {result : Option Json}
    (h : ∀ item ∈ result, item.get? key = some id) (other : Json) :
    identified? key result.toList other = if id.same other then result else none := by
  cases result with
  | none => simp [identified?]
  | some item =>
    have hiff : HasIdentity key item other ↔ id.same other = true := by
      rw [hasIdentity_iff, h item rfl]
      simp
    by_cases ho : id.same other = true
    · rw [if_pos ho]
      exact identified?_cons_of_identity (hiff.mpr ho) []
    · rw [if_neg ho]
      exact identified?_cons_of_not (fun hi => ho (hiff.mp hi)) []

/-- Behind the item of an identity there is none of it, where identities differ. -/
theorem IdentitiesDiffer.behind (hs : id.isScalar = true)
    (h : IdentitiesDiffer key (before ++ found :: after)) (hf : HasIdentity key found id) :
    ∀ item ∈ after, ¬ HasIdentity key item id := by
  intro item hm hi
  have hpair := (List.pairwise_cons.mp (List.pairwise_append.mp h).2.1).1 item hm
  obtain ⟨own, hown, hsame⟩ := hasIdentity_iff.mp hi
  refine hpair own hown ?_
  rw [HasIdentity, beq_congr hs hsame]
  exact hf

/-- After a patch item, its identity finds what it made of the item found before, and any other
identity finds what it found before. Only a removal could bring another item to light. -/
theorem identified?_single (hk : key ≠ directiveName) (hc : change.NamesDiffer)
    (h : change.get? key = some id) (hid : IsIdentity id) (hn : ∀ item ∈ old, item.NamesDiffer)
    (hd : change.isDelete = false ∨ IdentitiesDiffer key old) (other : Json) :
    identified? key (strategicItems (some key) old [change]) other =
      if id.same other then itemAfter (identified? key old id) change
      else identified? key old other := by
  have hcongr (hsame : id.same other = true) (list : List Json) :
      identified? key list other = identified? key list id :=
    identified?_congr hid.scalar (by rwa [same_comm hid.scalar]) list
  rcases strategicItems_single h old with ⟨before, found, after, rfl, hf, hb, he⟩ | ⟨hnone, he⟩
  · have hfound : identified? key (before ++ found :: after) id = some found :=
      identified?_eq_some.mpr ⟨hf, before, after, rfl, hb⟩
    have hnames : found.NamesDiffer := hn found (List.mem_append_right _ List.mem_cons_self)
    have hleft : ∀ item ∈ itemAfter (some found) change, item.get? key = some id := fun item hi =>
      itemAfter_get? hk hc h hid.scalar (by simpa using hnames) hi
    rw [he, identified?_append, identified?_append, identified?_toList hleft, hfound]
    by_cases hsame : id.same other = true
    · rw [if_pos hsame, if_pos hsame, hcongr hsame, hcongr hsame, identified?_eq_none.mpr hb,
        Option.none_or]
      cases hi : itemAfter (some found) change with
      | some item => rfl
      | none =>
        have hdiffer := hd.resolve_left (by simp [(itemAfter_eq_none_iff _).mp hi])
        rw [Option.none_or, identified?_eq_none.mpr (hdiffer.behind hid.scalar hf)]
    · have hother : ¬ HasIdentity key found other :=
        fun hi => hsame ((hf.iff hid.scalar other).mp hi)
      rw [if_neg hsame, if_neg hsame, Option.none_or, identified?_append,
        identified?_cons_of_not hother]
  · have hleft : ∀ item ∈ itemAfter none change, item.get? key = some id := fun item hi =>
      itemAfter_get? hk hc h hid.scalar (by simp) hi
    rw [he, identified?_append, identified?_toList hleft, identified?_eq_none.mpr hnone]
    by_cases hsame : id.same other = true
    · rw [if_pos hsame, if_pos hsame, hcongr hsame, identified?_eq_none.mpr hnone, Option.none_or]
    · rw [if_neg hsame, if_neg hsame, Option.or_none]

theorem IdentitiesDiffer.single (hd : IdentitiesDiffer key old) (hk : key ≠ directiveName)
    (hc : change.NamesDiffer) (h : change.get? key = some id) (hid : IsIdentity id)
    (hn : ∀ item ∈ old, item.NamesDiffer) :
    IdentitiesDiffer key (strategicItems (some key) old [change]) := by
  unfold IdentitiesDiffer at hd ⊢
  rcases strategicItems_single h old with ⟨before, found, after, rfl, hf, hb, he⟩ | ⟨hnone, he⟩
  · have hnames : found.NamesDiffer := hn found (List.mem_append_right _ List.mem_cons_self)
    rw [he]
    cases hi : itemAfter (some found) change with
    | none =>
      exact hd.sublist ((List.sublist_cons_self found after).append_left before)
    | some item =>
      have hitem : item.get? key = some id :=
        itemAfter_get? hk hc h hid.scalar (by simpa using hnames) hi
      obtain ⟨hbefore, hrest, hacross⟩ := List.pairwise_append.mp hd
      obtain ⟨hfound, hafter⟩ := List.pairwise_cons.mp hrest
      refine List.pairwise_append.mpr ⟨hbefore, List.pairwise_cons.mpr ⟨?_, hafter⟩, ?_⟩
      · intro later hl other ho hsame
        rw [(hasIdentity_of_get? hid hitem).iff hid.scalar, ← hf.iff hid.scalar] at hsame
        exact hfound later hl other ho hsame
      · intro first hm later hl
        rcases List.mem_cons.mp hl with rfl | hl
        · intro other ho
          obtain rfl : id = other := Option.some.inj (hitem.symm.trans ho)
          exact hb first hm
        · exact hacross first hm later (List.mem_cons_of_mem _ hl)
  · rw [he]
    refine List.pairwise_append.mpr ⟨hd, ?_, fun first hm later hl other ho => ?_⟩
    · cases itemAfter none change <;> simp
    have hitem : later.get? key = some id :=
      itemAfter_get? hk hc h hid.scalar (by simp) (Option.mem_toList.mp hl)
    obtain rfl : id = other := Option.some.inj (hitem.symm.trans ho)
    exact hnone first hm

/-! ## All items of a patch -/

/-- The items of a patch that name an identity, in their order. -/
def naming (key : String) (items : List Json) (id : Json) : List Json :=
  items.filter fun change => change.get? key == some id

theorem naming_cons (h : change.get? key = some id) (rest : List Json) (other : Json) :
    naming key (change :: rest) other =
      if id.same other then change :: naming key rest other else naming key rest other := by
  rw [naming, List.filter_cons, h]
  rfl

theorem naming_congr (hs : id.isScalar = true) (h : own.same id = true) (items : List Json) :
    naming key items own = naming key items id :=
  congrArg (fun p => items.filter p) (funext fun item => beq_congr hs h (item.get? key))

/-- Identities differ after all items of a patch as they did before. -/
theorem identitiesDiffer_strategicItems (hk : key ≠ directiveName)
    (hi : ∀ change ∈ items, Identified key change) (hn : ∀ item ∈ old, item.NamesDiffer)
    (hd : IdentitiesDiffer key old) :
    IdentitiesDiffer key (strategicItems (some key) old items) := by
  induction items generalizing old with
  | nil => exact hd
  | cons change rest ih =>
    obtain ⟨⟨hc, id, h, hid⟩, hrest⟩ := List.forall_mem_cons.mp hi
    rw [strategicItems_cons_eq]
    exact ih hrest (namesDiffer_single hc hn) (hd.single hk hc h hid hn)

/-- What an identity finds in the end is made of what it found at first by the items that name it,
one after the other. -/
theorem identified?_strategicItems (hk : key ≠ directiveName)
    (hi : ∀ change ∈ items, Identified key change) (hn : ∀ item ∈ old, item.NamesDiffer)
    (hd : (∀ change ∈ items, change.isDelete = false) ∨ IdentitiesDiffer key old) (other : Json) :
    identified? key (strategicItems (some key) old items) other =
      (naming key items other).foldl itemAfter (identified? key old other) := by
  induction items generalizing old with
  | nil => rfl
  | cons change rest ih =>
    obtain ⟨⟨hc, id, h, hid⟩, hrest⟩ := List.forall_mem_cons.mp hi
    have hfirst : change.isDelete = false ∨ IdentitiesDiffer key old :=
      hd.imp_left fun hstay => hstay change List.mem_cons_self
    have hafter := hd.imp (fun hstay later hl => hstay later (List.mem_cons_of_mem _ hl))
      fun hdiffer => hdiffer.single hk hc h hid hn
    rw [strategicItems_cons_eq, ih hrest (namesDiffer_single hc hn) hafter,
      identified?_single hk hc h hid hn hfirst, naming_cons h]
    by_cases hsame : id.same other = true
    · have hother : identified? key old other = identified? key old id :=
        identified?_congr hid.scalar (by rwa [same_comm hid.scalar]) old
      rw [if_pos hsame, if_pos hsame, List.foldl_cons, hother]
    · rw [if_neg hsame, if_neg hsame]

end Json

end ClusterConfig
