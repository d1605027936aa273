import ClusterConfig.Json.Patch
import ClusterConfig.Proofs.Documents.Places

/-!
# Additions and removals

What was added under a name can be removed again, and what was removed can be added again. Removed
members come back at the end, so a removal is undone up to the order of members. Additions and
removals keep containers well formed and do not see the order of members.

In a document, an addition or a removal at a pointer is one in the container that the pointer's names
but the last lead to, and is undone there.
-/

set_option autoImplicit false

namespace ClusterConfig.Json

section Containers

variable {a b value old new x y : Json} {name : String} {flag : Bool} {r : Option Json}
  {ms : Members Json} {xs : List Json}

/-- The index that a name stands for, `last` being that of `-`. -/
def place? (last : Option Nat) (name : String) : Option Nat :=
  if name = "-" then last else index? name

theorem index?_dash : index? "-" = none := by decide

theorem place?_none (name : String) : place? none name = index? name := by
  unfold place?
  split
  case isTrue h => rw [h, index?_dash]
  case isFalse => rfl

theorem place?_of_none {i : Nat} (last : Option Nat) (h : place? none name = some i) :
    place? last name = some i := by
  unfold place? at h ⊢
  split at h
  · cases h
  · rwa [if_neg ‹_›]

theorem addChild_arr_eq (name : String) (value : Json) (xs : List Json) :
    addChild name value (arr xs) = (place? (some xs.length) name).bind fun i =>
      if i ≤ xs.length then some (arr (xs.insertIdx i value), none) else none := by
  unfold addChild place?
  by_cases hn : name = "-"
  · simp [hn]
  · simp only [hn, if_false]
    cases index? name <;> rfl

theorem removeChild_arr_eq (flag : Bool) (name : String) (xs : List Json) :
    removeChild flag name (arr xs) =
      (place? (if flag then some (xs.length - 1) else none) name).bind fun i =>
        xs[i]?.map fun value => (arr (xs.eraseIdx i), value) := by
  cases flag with
  | false => simp [removeChild, place?_none]
  | true =>
    rw [removeChild, place?, Bool.true_and]
    by_cases hn : name = "-"
    · have hlast : xs.dropLast = xs.eraseIdx (xs.length - 1) := by
        cases xs with
        | nil => rfl
        | cons x xs => exact List.dropLast_eq_eraseIdx (by simp)
      rw [if_pos hn, if_pos (beq_iff_eq.mpr hn), List.getLast?_eq_getElem?, hlast]
      rfl
    · rw [if_neg hn, if_neg (fun h => hn (beq_iff_eq.mp h))]

theorem addChild_arr : addChild name value (arr xs) = some (new, r) ↔
    ∃ i, place? (some xs.length) name = some i ∧ i ≤ xs.length ∧
      new = arr (xs.insertIdx i value) ∧ r = none := by
  simp only [addChild_arr_eq, Option.bind_eq_some_iff, Option.ite_none_right_eq_some,
    Option.some.injEq, Prod.mk.injEq]
  refine exists_congr fun i => and_congr_right fun _ => and_congr_right fun _ => ?_
  rw [eq_comm, @eq_comm _ none]

theorem removeChild_arr : removeChild flag name (arr xs) = some (new, value) ↔
    ∃ i, place? (if flag then some (xs.length - 1) else none) name = some i ∧
      xs[i]? = some value ∧ new = arr (xs.eraseIdx i) := by
  simp only [removeChild_arr_eq, Option.bind_eq_some_iff, Option.map_eq_some_iff, Prod.mk.injEq]
  refine exists_congr fun i => and_congr_right fun _ => ?_
  constructor
  · rintro ⟨v, hv, rfl, rfl⟩
    exact ⟨hv, rfl⟩
  · rintro ⟨hv, rfl⟩
    exact ⟨value, hv, rfl, rfl⟩

/-- What is removed right after it was added leaves the container as it was. -/
theorem removeChild_added (h : addChild name value old = some (new, none)) :
    removeChild true name new = some (old, value) := by
  cases old with
  | obj ms =>
    obtain ⟨rfl, hg⟩ := Prod.mk.inj (Option.some.inj h)
    rw [removeChild, Members.get?_put_same, Members.remove_put hg]
    rfl
  | arr xs =>
    obtain ⟨i, hi, hle, rfl, -⟩ := addChild_arr.mp h
    refine removeChild_arr.mpr ⟨i, ?_, ?_, ?_⟩
    · rwa [if_pos rfl, List.length_insertIdx_of_le_length hle, Nat.add_sub_cancel]
    · rw [List.getElem?_insertIdx_self, if_pos hle]
    · rw [List.eraseIdx_insertIdx_self]
  | _ => cases h

/-- Only a member is replaced by an addition. -/
theorem addChild_some (h : addChild name value old = some (new, some x)) :
    ∃ ms, old = obj ms ∧ Members.get? ms name = some x ∧ new = obj (Members.put ms name value) := by
  cases old with
  | obj ms =>
    obtain ⟨rfl, hg⟩ := Prod.mk.inj (Option.some.inj h)
    exact ⟨ms, rfl, hg, rfl⟩
  | arr xs =>
    obtain ⟨i, -, -, -, hr⟩ := addChild_arr.mp h
    cases hr
  | _ => cases h

theorem addChild_replaced (h : addChild name value old = some (new, some x)) :
    addChild name x new = some (old, some value) := by
  obtain ⟨ms, rfl, hg, rfl⟩ := addChild_some h
  rw [addChild, Members.put_put, Members.put_get? hg, Members.get?_put_same]

/-- What is added where it was removed makes the container alike. -/
theorem addChild_removed (ho : old.WellFormed) (h : removeChild flag name old = some (new, value)) :
    ∃ back, addChild name value new = some (back, none) ∧ back.Alike old := by
  cases old with
  | obj ms =>
    obtain ⟨hd, -⟩ := wellFormed_obj.mp ho
    obtain ⟨v, hv, hn⟩ := Option.map_eq_some_iff.mp h
    obtain ⟨rfl, rfl⟩ := Prod.mk.inj hn
    refine ⟨_, ?_, alike_put_remove hd hv⟩
    rw [addChild, Members.get?_remove_same hd]
  | arr xs =>
    obtain ⟨i, hi, hv, rfl⟩ := removeChild_arr.mp h
    obtain ⟨hlt, rfl⟩ := List.getElem?_eq_some_iff.mp hv
    have hlen := List.length_eraseIdx_of_lt hlt
    refine ⟨arr xs, addChild_arr.mpr ⟨i, ?_, by omega, ?_, rfl⟩, Alike.refl _⟩
    · cases flag with
      | false => exact place?_of_none _ hi
      | true => rwa [hlen]
    · rw [List.insertIdx_eraseIdx_getElem hlt]
  | _ => cases h

/-- A container that something was removed from is another one. -/
theorem removeChild_not_alike (ho : old.WellFormed)
    (h : removeChild flag name old = some (new, value)) : ¬ new.Alike old := by
  cases old with
  | obj ms =>
    obtain ⟨hd, -⟩ := wellFormed_obj.mp ho
    obtain ⟨v, hv, hn⟩ := Option.map_eq_some_iff.mp h
    obtain ⟨rfl, rfl⟩ := Prod.mk.inj hn
    intro ha
    have := alike_obj.mp ha name
    rw [Members.get?_remove_same hd, hv] at this
    cases this
  | arr xs =>
    obtain ⟨i, -, hv, rfl⟩ := removeChild_arr.mp h
    have hlen := List.length_eraseIdx_of_lt (List.getElem?_eq_some_iff.mp hv).1
    have hlt := (List.getElem?_eq_some_iff.mp hv).1
    intro ha
    have := alike_arr_length ha
    omega
  | _ => cases h

/-- Under a member that was replaced there is the new value; what is left without it is alike. -/
theorem removeChild_replaced (ho : old.WellFormed)
    (h : addChild name value old = some (new, some x)) (flag : Bool) :
    ∃ less less', removeChild flag name old = some (less, x) ∧
      removeChild flag name new = some (less', value) ∧ less'.Alike less := by
  obtain ⟨ms, rfl, hg, rfl⟩ := addChild_some h
  obtain ⟨hd, -⟩ := wellFormed_obj.mp ho
  refine ⟨_, _, by rw [removeChild, hg]; rfl, by rw [removeChild, Members.get?_put_same]; rfl, ?_⟩
  rw [alike_obj]
  intro other
  rw [Members.get?_remove (Members.nodup_put hd name value), Members.get?_remove hd]
  by_cases hn : other = name
  · rw [if_pos hn, if_pos hn]
  · rw [if_neg hn, if_neg hn, Members.get?_put_other ms value hn]

theorem addChild_wellFormed (hv : value.WellFormed) (ho : old.WellFormed)
    (h : addChild name value old = some (new, r)) :
    new.WellFormed ∧ ∀ x ∈ r, x.WellFormed := by
  cases old with
  | obj ms =>
    obtain ⟨rfl, rfl⟩ := Prod.mk.inj (Option.some.inj h)
    refine ⟨setChild_wellFormed ho hv name, fun x hx => ?_⟩
    exact child?_wellFormed ho (show (obj ms).child? name = some x from hx)
  | arr xs =>
    obtain ⟨i, -, hle, rfl, rfl⟩ := addChild_arr.mp h
    refine ⟨wellFormed_arr.mpr fun item hm => ?_, by simp⟩
    rcases (List.mem_insertIdx hle).mp hm with rfl | hm
    · exact hv
    · exact wellFormed_arr.mp ho item hm
  | _ => cases h

theorem removeChild_wellFormed (ho : old.WellFormed)
    (h : removeChild flag name old = some (new, value)) :
    new.WellFormed ∧ value.WellFormed := by
  cases old with
  | obj ms =>
    obtain ⟨hd, hm⟩ := wellFormed_obj.mp ho
    obtain ⟨v, hv, hn⟩ := Option.map_eq_some_iff.mp h
    obtain ⟨rfl, rfl⟩ := Prod.mk.inj hn
    refine ⟨wellFormed_obj.mpr ⟨Members.nodup_remove hd name, fun entry he => ?_⟩,
      hm _ (Members.mem_of_get? hv)⟩
    exact hm entry (Members.mem_of_mem_remove he)
  | arr xs =>
    obtain ⟨i, -, hv, rfl⟩ := removeChild_arr.mp h
    have hx := wellFormed_arr.mp ho
    refine ⟨wellFormed_arr.mpr fun item hm => hx item (List.mem_of_mem_eraseIdx hm), ?_⟩
    exact hx value (List.mem_of_getElem? hv)
  | _ => cases h

theorem addChild_alike (hxy : x.Alike y) (h : a.Alike b) (name : String) :
    Option.Rel (fun p q => p.1.Alike q.1 ∧ p.2.map unordered = q.2.map unordered)
      (addChild name x a) (addChild name y b) := by
  cases a with
  | obj ms =>
    obtain ⟨ns, rfl⟩ := alike_obj_left h
    exact Option.Rel.some ⟨alike_put h hxy name, alike_obj.mp h name⟩
  | arr xs =>
    obtain ⟨ys, rfl⟩ := alike_arr_left h
    rw [addChild_arr_eq, addChild_arr_eq, alike_arr_length h]
    cases place? (some ys.length) name with
    | none => exact Option.Rel.none
    | some i =>
      simp only [Option.bind_some]
      split
      · refine Option.Rel.some ⟨?_, rfl⟩
        rw [alike_arr, List.map_insertIdx, List.map_insertIdx, alike_arr.mp h,
          show x.unordered = y.unordered from hxy]
      · exact Option.Rel.none
  | _ => cases b <;> first | exact Option.Rel.none | cases h

theorem removeChild_alike (ha : a.WellFormed) (hb : b.WellFormed) (h : a.Alike b) (flag : Bool)
    (name : String) :
    Option.Rel (fun p q => p.1.Alike q.1 ∧ p.2.Alike q.2) (removeChild flag name a)
      (removeChild flag name b) := by
  cases a with
  | obj ms =>
    obtain ⟨ns, rfl⟩ := alike_obj_left h
    have hless := alike_remove (wellFormed_obj.mp ha).1 (wellFormed_obj.mp hb).1 h name
    exact rel_map_alike (alike_obj.mp h name) fun x y hxy => ⟨hless, hxy⟩
  | arr xs =>
    obtain ⟨ys, rfl⟩ := alike_arr_left h
    rw [removeChild_arr_eq, removeChild_arr_eq, alike_arr_length h]
    cases place? (if flag then some (ys.length - 1) else none) name with
    | none => exact Option.Rel.none
    | some i =>
      refine rel_map_alike (alike_arr_getElem? h i) fun x y hxy => ⟨?_, hxy⟩
      rw [alike_arr, ← List.eraseIdx_map, ← List.eraseIdx_map, alike_arr.mp h]
  | _ => cases b <;> first | exact Option.Rel.none | cases h

end Containers

section Documents

variable {a b doc after value old x y : Json} {path : Pointer} {flag : Bool}
  {stem rest names : List String}

/-! ## The last name of a chain -/

theorem splitLast_concat (stem : List String) (name : String) :
    splitLast (stem ++ [name]) = some (stem, name) := by
  induction stem with
  | nil => rfl
  | cons first stem ih =>
    cases stem with
    | nil => rfl
    | cons second stem =>
      rw [List.cons_append, splitLast, ih]
      · rfl
      · simp

theorem removeAt?_root (flag : Bool) (doc : Json) : removeAt? flag doc ⟨[]⟩ = none := rfl

theorem addAt?_concat (doc : Json) (stem : List String) (name : String) (value : Json) :
    addAt? doc ⟨stem ++ [name]⟩ value = modifyAt? (addChild name value) doc stem := by
  rw [addAt?, splitLast_concat]

theorem removeAt?_concat (flag : Bool) (doc : Json) (stem : List String) (name : String) :
    removeAt? flag doc ⟨stem ++ [name]⟩ = modifyAt? (removeChild flag name) doc stem := by
  rw [removeAt?, splitLast_concat]

/-- A pointer leads to the root, or to a name of the container that its other names lead to. -/
@[elab_as_elim]
theorem pointer_cases {P : Pointer → Prop} (root : P ⟨[]⟩)
    (child : ∀ stem name, P ⟨stem ++ [name]⟩) (path : Pointer) : P path := by
  obtain ⟨names⟩ := path
  rcases List.eq_nil_or_concat names with rfl | ⟨stem, name, rfl⟩
  · exact root
  · rw [List.concat_eq_append]
    exact child stem name

/-- A chain that is not empty has a last name. -/
theorem exists_concat (h : names ≠ []) : ∃ stem name, names = stem ++ [name] :=
  ⟨names.dropLast, names.getLast h, (List.dropLast_append_getLast h).symm⟩

theorem addAt?_under (hr : rest ≠ []) (doc : Json) (stem : List String) (value : Json) :
    addAt? doc ⟨stem ++ rest⟩ value = modifyAt? (fun x => addAt? x ⟨rest⟩ value) doc stem := by
  obtain ⟨init, name, rfl⟩ := exists_concat hr
  simp only [addAt?_concat, ← List.append_assoc, modifyAt?_append]

theorem removeAt?_under (hr : rest ≠ []) (flag : Bool) (doc : Json) (stem : List String) :
    removeAt? flag doc ⟨stem ++ rest⟩ = modifyAt? (fun x => removeAt? flag x ⟨rest⟩) doc stem := by
  obtain ⟨init, name, rfl⟩ := exists_concat hr
  simp only [removeAt?_concat, ← List.append_assoc, modifyAt?_append]

theorem addAt?_cons {r : Option Json} {name : String} (hr : rest ≠ []) :
    addAt? doc ⟨name :: rest⟩ value = some (after, r) ↔
      ∃ child new, doc.child? name = some child ∧ addAt? child ⟨rest⟩ value = some (new, r) ∧
        after = doc.setChild name new := by
  rw [← List.singleton_append, addAt?_under hr, modifyAt?_cons]
  rfl

theorem removeAt?_cons {name : String} (hr : rest ≠ []) :
    removeAt? flag doc ⟨name :: rest⟩ = some (after, value) ↔
      ∃ child new, doc.child? name = some child ∧ removeAt? flag child ⟨rest⟩ = some (new, value) ∧
        after = doc.setChild name new := by
  rw [← List.singleton_append, removeAt?_under hr, modifyAt?_cons]
  rfl

/-! ## Undoing -/

/-- Where a change can be undone, setting children leads back to the document. -/
theorem setChild_back {doc : Json} {name : String} {x y : Json} (h : doc.child? name = some x)
    (hy : y.Alike x) : (doc.setChild name y).Alike doc := by
  have := setChild_alike (Alike.refl doc) hy name
  rwa [setChild_child h] at this

theorem setChild_eq_back {doc : Json} {name : String} {x y : Json} (h : doc.child? name = some x)
    (hy : y = x) : doc.setChild name y = doc := by
  rw [hy, setChild_child h]

theorem removeAt?_added (hd : doc.WellFormed) (h : addAt? doc path value = some (after, none)) :
    removeAt? true after path = some (doc, value) := by
  cases path using pointer_cases with
  | root =>
    cases h
  | child stem name =>
    rw [addAt?_concat] at h
    rw [removeAt?_concat]
    obtain ⟨back, hb, rfl⟩ := modifyAt?_back Eq setChild_eq_back
      (fun old new _ hf => ⟨old, removeChild_added hf, rfl⟩) hd h
    exact hb

theorem addAt?_replaced (hd : doc.WellFormed)
    (h : addAt? doc path value = some (after, some old)) :
    addAt? after path old = some (doc, some value) := by
  cases path using pointer_cases with
  | root =>
    cases h
    rfl
  | child stem name =>
    rw [addAt?_concat] at h ⊢
    obtain ⟨back, hb, rfl⟩ := modifyAt?_back Eq setChild_eq_back
      (fun old new _ hf => ⟨old, addChild_replaced hf, rfl⟩) hd h
    exact hb

theorem addAt?_removed (hd : doc.WellFormed) (h : removeAt? flag doc path = some (after, value)) :
    ∃ back, addAt? after path value = some (back, none) ∧ back.Alike doc := by
  cases path using pointer_cases with
  | root =>
    cases h
  | child stem name =>
    rw [removeAt?_concat] at h
    rw [addAt?_concat]
    exact modifyAt?_back Alike setChild_back (fun old new ho hf => addChild_removed ho hf) hd h

theorem replaceAt?_replaced (hd : doc.WellFormed)
    (h : replaceAt? doc path value = some (after, old)) :
    replaceAt? after path old = some (doc, value) := by
  obtain ⟨back, hb, rfl⟩ := modifyAt?_back Eq setChild_eq_back
    (g := fun old' => some (old, old')) (s := value)
    (fun old' new _ hf => by
      obtain ⟨rfl, rfl⟩ := Prod.mk.inj (Option.some.inj hf)
      exact ⟨_, rfl, rfl⟩) hd h
  exact hb

/-- What is left without a value is alike whether it was replaced before or not. -/
theorem removeAt?_replaced (hd : doc.WellFormed) (hp : path.names ≠ [])
    (h : addAt? doc path value = some (after, some old)) (flag : Bool) :
    ∃ less less', removeAt? flag doc path = some (less, old) ∧
      removeAt? flag after path = some (less', value) ∧ less'.Alike less := by
  obtain ⟨stem, name, hn⟩ := exists_concat hp
  obtain rfl : path = ⟨stem ++ [name]⟩ := congrArg Pointer.mk hn
  rw [addAt?_concat] at h
  rw [removeAt?_concat, removeAt?_concat]
  exact modifyAt?_around (fun old new ho hf => removeChild_replaced ho hf flag) hd h

/-- A document that something was removed from is another one. -/
theorem removeAt?_not_alike (hd : doc.WellFormed)
    (h : removeAt? flag doc path = some (after, value)) : ¬ after.Alike doc := by
  cases path using pointer_cases with
  | root =>
    cases h
  | child stem name =>
    rw [removeAt?_concat] at h
    obtain ⟨old, new, ho, hf, hnew⟩ := at?_modifyAt? h
    intro ha
    have hat := at?_alike ha stem
    rw [ho, hnew] at hat
    exact removeChild_not_alike (at?_wellFormed hd ho) hf (Option.some.inj hat)

/-! ## Well-formed documents -/

theorem addAt?_wellFormed {r : Option Json} (hd : doc.WellFormed) (hv : value.WellFormed)
    (h : addAt? doc path value = some (after, r)) :
    after.WellFormed ∧ ∀ x ∈ r, x.WellFormed := by
  cases path using pointer_cases with
  | root =>
    obtain ⟨rfl, rfl⟩ := Prod.mk.inj (Option.some.inj h)
    exact ⟨hv, fun x hx => Option.some.inj hx ▸ hd⟩
  | child stem name =>
    rw [addAt?_concat] at h
    exact modifyAt?_wellFormed (P := fun r => ∀ x ∈ r, x.WellFormed)
      (fun old new ho hf => addChild_wellFormed hv ho hf) hd h

theorem removeAt?_wellFormed (hd : doc.WellFormed)
    (h : removeAt? flag doc path = some (after, value)) : after.WellFormed ∧ value.WellFormed := by
  cases path using pointer_cases with
  | root =>
    cases h
  | child stem name =>
    rw [removeAt?_concat] at h
    exact modifyAt?_wellFormed (fun old new ho hf => removeChild_wellFormed ho hf) hd h

theorem replaceAt?_wellFormed (hd : doc.WellFormed) (hv : value.WellFormed)
    (h : replaceAt? doc path value = some (after, old)) : after.WellFormed ∧ old.WellFormed := by
  refine modifyAt?_wellFormed (fun x new hx hf => ?_) hd h
  obtain ⟨rfl, rfl⟩ := Prod.mk.inj (Option.some.inj hf)
  exact ⟨hv, hx⟩

/-! ## Alike documents -/

theorem addAt?_alike (ha : a.WellFormed) (hb : b.WellFormed) (h : a.Alike b) (hxy : x.Alike y)
    (path : Pointer) :
    Option.Rel (fun p q => p.1.Alike q.1 ∧ p.2.map unordered = q.2.map unordered)
      (addAt? a path x) (addAt? b path y) := by
  cases path using pointer_cases with
  | root =>
    exact Option.Rel.some ⟨hxy, congrArg some h⟩
  | child stem name =>
    rw [addAt?_concat, addAt?_concat]
    exact modifyAt?_alike (fun p q : Option Json => p.map unordered = q.map unordered)
      (fun _ _ _ _ h => addChild_alike hxy h name) ha hb h

theorem removeAt?_alike (ha : a.WellFormed) (hb : b.WellFormed) (h : a.Alike b) (flag : Bool)
    (path : Pointer) :
    Option.Rel (fun p q => p.1.Alike q.1 ∧ p.2.Alike q.2) (removeAt? flag a path)
      (removeAt? flag b path) := by
  cases path using pointer_cases with
  | root =>
    exact Option.Rel.none
  | child stem name =>
    rw [removeAt?_concat, removeAt?_concat]
    exact modifyAt?_alike Alike (fun _ _ hx hy h => removeChild_alike hx hy h flag name) ha hb h

theorem replaceAt?_alike (ha : a.WellFormed) (hb : b.WellFormed) (h : a.Alike b)
    (hxy : x.Alike y) (path : Pointer) :
    Option.Rel (fun p q => p.1.Alike q.1 ∧ p.2.Alike q.2) (replaceAt? a path x)
      (replaceAt? b path y) :=
  modifyAt?_alike Alike (fun _ _ _ _ h => Option.Rel.some ⟨hxy, h⟩) ha hb h

end Documents

end ClusterConfig.Json
