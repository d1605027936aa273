import ClusterConfig.Proofs.Patches.Edits

/-!
# The order of two removals, and moves taken back

Removals at places apart from each other commute, up to the order of members, unless the second
place lies behind the first in one array: there the removal moves the second place.

A move that replaced a member is taken back by moving the value back and adding the old member.
This restores the document, unless the value came from an array and the member lies in one of the
items behind it: these are one place further then, and the member ends up beside its place.
-/

set_option autoImplicit false

namespace ClusterConfig.Json

section Removals

variable {doc between after left value old new x y : Json} {a b name : String} {f g : Bool}
  {s p : List String} {ms : Members Json} {xs : List Json}

/-- Removing the value at `source` moves what `path` leads to: it lies in the same array, at the
same index or behind. -/
def Shifts (doc : Json) (source path : Pointer) : Prop :=
  ∃ stem a b rest items i j, source.names = stem ++ [a] ∧ path.names = stem ++ b :: rest ∧
    doc.at? stem = some (.arr items) ∧ index? a = some i ∧ index? b = some j ∧ i ≤ j

theorem Shifts.under (h : x.Shifts ⟨s⟩ ⟨p⟩) (hc : doc.child? name = some x) :
    doc.Shifts ⟨name :: s⟩ ⟨name :: p⟩ := by
  obtain ⟨stem, a, b, rest, items, i, j, rfl, rfl, hat, hi, hj, hij⟩ := h
  refine ⟨name :: stem, a, b, rest, items, i, j, rfl, rfl, ?_, hi, hj, hij⟩
  rw [at?_cons, hc, Option.bind_some, hat]

/-! ## Objects -/

/-- What a removal leaves under a name, nothing at the end of the chain, and the removed value. -/
def takeAt? (flag : Bool) (child : Json) (names : List String) : Option (Option Json × Json) :=
  if names = [] then some (none, child)
  else (removeAt? flag child ⟨names⟩).map fun taken => (some taken.1, taken.2)

theorem removeAt?_obj : removeAt? f (obj ms) ⟨name :: s⟩ = some (after, value) ↔
    ∃ child left, Members.get? ms name = some child ∧ takeAt? f child s = some (left, value) ∧
      after = obj (Members.update ms name left) := by
  by_cases hs : s = []
  · subst hs
    rw [← List.nil_append [name], removeAt?_concat]
    simp only [modifyAt?, removeChild, takeAt?, if_true, Option.map_eq_some_iff, Prod.mk.injEq,
      Option.some.injEq]
    constructor
    · rintro ⟨v, hv, rfl, rfl⟩
      exact ⟨v, none, hv, ⟨rfl, rfl⟩, rfl⟩
    · rintro ⟨v, _, hv, ⟨rfl, rfl⟩, rfl⟩
      exact ⟨v, hv, rfl, rfl⟩
  · rw [removeAt?_cons hs]
    simp only [takeAt?, if_neg hs, Option.map_eq_some_iff, Prod.mk.injEq]
    constructor
    · rintro ⟨child, new, hc, hn, rfl⟩
      exact ⟨child, some new, hc, ⟨(new, value), hn, rfl, rfl⟩, rfl⟩
    · rintro ⟨child, _, hc, ⟨⟨new, v⟩, hn, rfl, rfl⟩, rfl⟩
      exact ⟨child, new, hc, hn, rfl⟩

theorem alike_update_update (hd : (Members.keys ms).Nodup) (hab : a ≠ b) (o q : Option Json) :
    (obj (Members.update (Members.update ms a o) b q)).Alike
      (obj (Members.update (Members.update ms b q) a o)) := by
  rw [alike_obj]
  intro name
  rw [Members.get?_update (Members.nodup_update hd a o), Members.get?_update hd,
    Members.get?_update (Members.nodup_update hd b q), Members.get?_update hd]
  by_cases hb : name = b
  · rw [if_pos hb, if_neg (fun h : name = a => hab (h.symm.trans hb)), if_pos hb]
  · rw [if_neg hb, if_neg hb]

theorem removals_commute_obj (hd : (Members.keys ms).Nodup) (hab : a ≠ b)
    (hs : removeAt? f (obj ms) ⟨a :: s⟩ = some (between, value))
    (hp : removeAt? g between ⟨b :: p⟩ = some (left, old)) :
    ∃ less rest, removeAt? g (obj ms) ⟨b :: p⟩ = some (less, old) ∧
      removeAt? f less ⟨a :: s⟩ = some (rest, value) ∧ left.Alike rest := by
  obtain ⟨c, o, hc, ho, rfl⟩ := removeAt?_obj.mp hs
  obtain ⟨e, q, he, hq, rfl⟩ := removeAt?_obj.mp hp
  rw [Members.get?_update hd, if_neg hab.symm] at he
  refine ⟨_, _, removeAt?_obj.mpr ⟨e, q, he, hq, rfl⟩, removeAt?_obj.mpr ⟨c, o, ?_, ho, rfl⟩,
    alike_update_update hd hab o q⟩
  rw [Members.get?_update hd, if_neg hab, hc]

/-! ## Arrays -/

theorem removals_commute_arr (hab : a ≠ b) (hpn : p ≠ [])
    (hs : removeAt? false (arr xs) ⟨a :: s⟩ = some (between, value))
    (hp : removeAt? g between ⟨b :: p⟩ = some (left, old))
    (hsh : ¬ (arr xs).Shifts ⟨a :: s⟩ ⟨b :: p⟩) :
    ∃ less, removeAt? g (arr xs) ⟨b :: p⟩ = some (less, old) ∧
      removeAt? false less ⟨a :: s⟩ = some (left, value) := by
  by_cases hsn : s = []
  · subst hsn
    rw [← List.nil_append [a], removeAt?_concat] at hs
    obtain ⟨i, hi, hv, rfl⟩ := removeChild_arr.mp hs
    rw [if_neg Bool.false_ne_true, place?_none] at hi
    obtain ⟨e, e', he, hr, rfl⟩ := (removeAt?_cons hpn).mp hp
    obtain ⟨j, hj, hx⟩ := child?_arr_eq_some.mp he
    -- the index of the second place comes first, so it is the same in both arrays
    have hji : j < i := by
      by_contra hle
      exact hsh ⟨[], a, b, p, xs, i, j, rfl, rfl, rfl, hi, hj, by omega⟩
    rw [List.getElem?_eraseIdx_of_lt hji] at hx
    refine ⟨arr (xs.set j e'), (removeAt?_cons hpn).mpr ⟨e, e', ?_, hr, ?_⟩, ?_⟩
    · exact child?_arr_eq_some.mpr ⟨j, hj, hx⟩
    · rw [setChild_arr hj]
    · rw [← List.nil_append [a], removeAt?_concat]
      refine removeChild_arr.mpr ⟨i, ?_, ?_, ?_⟩
      · rwa [if_neg Bool.false_ne_true, place?_none]
      · rwa [List.getElem?_set_ne (by omega)]
      · rw [setChild_arr hj, List.eraseIdx_set_gt hji]
  · obtain ⟨c, c', hc, hr, rfl⟩ := (removeAt?_cons hsn).mp hs
    obtain ⟨e, e', he, hq, rfl⟩ := (removeAt?_cons hpn).mp hp
    rw [child?_setChild_other hab.symm] at he
    refine ⟨(arr xs).setChild b e', (removeAt?_cons hpn).mpr ⟨e, e', he, hq, rfl⟩,
      (removeAt?_cons hsn).mpr ⟨c, c', ?_, hr, ?_⟩⟩
    · rwa [child?_setChild_other hab]
    · obtain ⟨i, hi, -⟩ := child?_arr_eq_some.mp hc
      obtain ⟨j, hj, -⟩ := child?_arr_eq_some.mp he
      have hij : i ≠ j := fun h => hab (index?_injective hi (h ▸ hj))
      rw [setChild_arr hi, setChild_arr hj, setChild_arr hj, setChild_arr hi, List.set_comm _ _ hij]

/-! ## Documents -/

theorem removeAt?_shape (h : removeAt? f doc ⟨a :: s⟩ = some (after, value)) :
    (∃ ms ns, doc = obj ms ∧ after = obj ns) ∨ ∃ xs ys, doc = arr xs ∧ after = arr ys := by
  by_cases hs : s = []
  · subst hs
    rw [← List.nil_append [a], removeAt?_concat] at h
    cases doc with
    | obj ms =>
      obtain ⟨v, -, hn⟩ := Option.map_eq_some_iff.mp h
      exact Or.inl ⟨ms, _, rfl, (Prod.mk.inj hn).1.symm⟩
    | arr xs =>
      obtain ⟨i, -, -, rfl⟩ := removeChild_arr.mp h
      exact Or.inr ⟨xs, _, rfl, rfl⟩
    | _ => cases h
  · obtain ⟨c, c', hc, -, rfl⟩ := (removeAt?_cons hs).mp h
    cases doc with
    | obj ms => exact Or.inl ⟨ms, _, rfl, rfl⟩
    | arr xs => exact Or.inr ⟨xs, _, rfl, rfl⟩
    | _ => cases hc

/-- A value is removed, then one that was replaced by something else: the other order leaves the
same. -/
theorem removals_commute (hd : doc.WellFormed)
    (hs : removeAt? false doc ⟨s⟩ = some (between, value))
    (hp : addAt? between ⟨p⟩ new = some (after, some old))
    (hsp : ¬ s <+: p) (hps : ¬ p <+: s) (hsh : ¬ doc.Shifts ⟨s⟩ ⟨p⟩) :
    ∃ less rest left, removeAt? true doc ⟨p⟩ = some (less, old) ∧
      removeAt? false less ⟨s⟩ = some (rest, value) ∧
      removeAt? true between ⟨p⟩ = some (left, old) ∧ left.Alike rest := by
  induction s generalizing doc between after p with
  | nil => exact absurd List.nil_prefix hsp
  | cons a s ih =>
    cases p with
    | nil => exact absurd List.nil_prefix hps
    | cons b p =>
      by_cases hab : a = b
      · subst hab
        have hsn : s ≠ [] := fun h => hsp (by simp [h])
        have hpn : p ≠ [] := fun h => hps (by simp [h])
        obtain ⟨c, c', hc, hcs, rfl⟩ := (removeAt?_cons hsn).mp hs
        obtain ⟨e, e', he, hep, rfl⟩ := (addAt?_cons hpn).mp hp
        obtain rfl : c' = e := Option.some.inj ((child?_setChild hc).symm.trans he)
        obtain ⟨less, rest, left, hl, hr, hf, hlr⟩ := ih (child?_wellFormed hd hc) hcs hep
          (fun h => hsp (List.cons_prefix_cons.mpr ⟨rfl, h⟩))
          (fun h => hps (List.cons_prefix_cons.mpr ⟨rfl, h⟩)) (fun h => hsh (h.under hc))
        refine ⟨doc.setChild a less, doc.setChild a rest, doc.setChild a left,
          (removeAt?_cons hpn).mpr ⟨c, less, hc, hl, rfl⟩,
          (removeAt?_cons hsn).mpr ⟨less, rest, child?_setChild hc, hr, ?_⟩,
          (removeAt?_cons hpn).mpr ⟨c', left, he, hf, ?_⟩, setChild_alike (Alike.refl doc) hlr a⟩
        · rw [setChild_setChild]
        · rw [setChild_setChild]
      · have hbw := (removeAt?_wellFormed hd hs).1
        obtain ⟨left, -, hl, -, -⟩ := removeAt?_replaced hbw (List.cons_ne_nil b p) hp true
        rcases removeAt?_shape hs with ⟨ms, ns, rfl, rfl⟩ | ⟨xs, ys, rfl, rfl⟩
        · obtain ⟨less, rest, hless, hrest, hlr⟩ :=
            removals_commute_obj (wellFormed_obj.mp hd).1 hab hs hl
          exact ⟨less, rest, left, hless, hrest, hl, hlr⟩
        · have hpn : p ≠ [] := by
            intro h
            subst h
            rw [← List.nil_append [b], addAt?_concat] at hp
            obtain ⟨ms, hms, -⟩ := addChild_some hp
            cases hms
          obtain ⟨less, hless, hrest⟩ := removals_commute_arr hab hpn hs hl hsh
          exact ⟨less, left, left, hless, hrest, hl, Alike.refl left⟩

end Removals

section Moves

variable {doc between after value old x y : Json} {a b : String} {s p stem rest : List String}

/-! ## Moves that can be taken back -/

theorem moveBack_replaced (hd : doc.WellFormed) (ha : after.WellFormed)
    (hs : removeAt? false doc ⟨s⟩ = some (between, value))
    (hp : addAt? between ⟨p⟩ value = some (after, some old))
    (hsp : ¬ s <+: p) (hps : ¬ p <+: s) (hsh : ¬ doc.Shifts ⟨s⟩ ⟨p⟩) :
    ∃ taken back final r r', removeAt? true after ⟨p⟩ = some (taken, value) ∧
      addAt? taken ⟨s⟩ value = some (back, r) ∧ addAt? back ⟨p⟩ old = some (final, r') ∧
      final.Alike doc := by
  have hpn : p ≠ [] := fun h => hps (h ▸ List.nil_prefix)
  have hbw := (removeAt?_wellFormed hd hs).1
  obtain ⟨less, rest, left, hless, hrest, hleft, hlr⟩ := removals_commute hd hs hp hsp hps hsh
  obtain ⟨left', taken, hl', htaken, htl⟩ := removeAt?_replaced hbw hpn hp true
  obtain rfl : left' = left := (Prod.mk.inj (Option.some.inj (hl'.symm.trans hleft))).1
  have hlw := (removeAt?_wellFormed hd hless).1
  have htw := removeAt?_wellFormed ha htaken
  -- without both values there is the same as in the other order
  have htr : taken.Alike rest := htl.trans hlr
  obtain ⟨one, hone, honel⟩ := addAt?_removed hlw hrest
  have hrel := addAt?_alike htw.1 (removeAt?_wellFormed hlw hrest).1 htr (Alike.refl value) ⟨s⟩
  rw [hone] at hrel
  cases hback : addAt? taken ⟨s⟩ value with
  | none =>
    rw [hback] at hrel
    cases hrel
  | some result =>
    obtain ⟨back, r⟩ := result
    rw [hback] at hrel
    have hbl : back.Alike less := (Option.rel_some_some.mp hrel).1.trans honel
    obtain ⟨two, htwo, htwod⟩ := addAt?_removed hd hless
    have hrel' := addAt?_alike (addAt?_wellFormed htw.1 htw.2 hback).1 hlw hbl (Alike.refl old) ⟨p⟩
    rw [htwo] at hrel'
    cases hfinal : addAt? back ⟨p⟩ old with
    | none =>
      rw [hfinal] at hrel'
      cases hrel'
    | some result' =>
      obtain ⟨final, r'⟩ := result'
      rw [hfinal] at hrel'
      exact ⟨taken, back, final, r, r', htaken, hback, hfinal,
        (Option.rel_some_some.mp hrel').1.trans htwod⟩

/-! ## Moves that cannot -/

/-- Documents that are alike have alike items in each array. -/
theorem item_alike {xs ys : List Json} {j : Nat} (h : x.Alike y) (hx : x.at? stem = some (arr xs))
    (hy : y.at? stem = some (arr ys)) {v w : Json} (hv : xs[j]? = some v) (hw : ys[j]? = some w) :
    v.Alike w := by
  have hat := at?_alike h stem
  rw [hx, hy] at hat
  have hget := alike_arr_getElem? (Option.some.inj hat) j
  rw [hv, hw] at hget
  exact Option.some.inj hget

/-- Adding below an item of an array leaves the other items. -/
theorem addAt?_item {xs : List Json} {i j : Nat} {r : Option Json} (hr : rest ≠ [])
    (hi : index? b = some i) (hij : j ≠ i) (hx : x.at? stem = some (arr xs))
    (h : addAt? x ⟨stem ++ b :: rest⟩ value = some (y, r)) :
    ∃ ys, y.at? stem = some (arr ys) ∧ ys[j]? = xs[j]? := by
  rw [addAt?_under (List.cons_ne_nil b rest)] at h
  obtain ⟨c, new, hat, hadd, hnew⟩ := at?_modifyAt? h
  obtain rfl : c = arr xs := Option.some.inj (hat.symm.trans hx)
  obtain ⟨child, child', -, -, rfl⟩ := (addAt?_cons hr).mp hadd
  rw [setChild_arr hi] at hnew
  exact ⟨_, hnew, List.getElem?_set_ne hij.symm⟩

section Shifted

variable {xs : List Json} {i j : Nat}

/-- A member that was replaced lies below an item. -/
theorem replaced_below (hbetween : between.at? stem = some (arr xs))
    (hp : addAt? between ⟨stem ++ b :: rest⟩ value = some (after, some old)) : rest ≠ [] := by
  intro h
  subst h
  rw [addAt?_concat] at hp
  obtain ⟨c, c', hc, hadd, -⟩ := at?_modifyAt? hp
  obtain rfl : c = arr xs := Option.some.inj (hc.symm.trans hbetween)
  obtain ⟨ms, hms, -⟩ := addChild_some hadd
  cases hms

theorem removed_item (hx : doc.at? stem = some (arr xs)) (hi : index? a = some i)
    (hs : removeAt? false doc ⟨stem ++ [a]⟩ = some (between, value)) :
    xs[i]? = some value ∧ between.at? stem = some (arr (xs.eraseIdx i)) := by
  rw [removeAt?_concat] at hs
  obtain ⟨c, c', hc, hrem, hc'⟩ := at?_modifyAt? hs
  obtain rfl : c = arr xs := Option.some.inj (hc.symm.trans hx)
  obtain ⟨i', hi', hv, rfl⟩ := removeChild_arr.mp hrem
  rw [if_neg Bool.false_ne_true, place?_none, hi] at hi'
  obtain rfl := Option.some.inj hi'
  exact ⟨hv, hc'⟩

/-- After the member was replaced and removed, its item is one place further to the front than in
the document, and lacks the member. -/
theorem taken_item (hd : doc.WellFormed) (hx : doc.at? stem = some (arr xs))
    (hi : index? a = some i) (hj : index? b = some j) (hij : i ≤ j)
    (hs : removeAt? false doc ⟨stem ++ [a]⟩ = some (between, value))
    (hp : addAt? between ⟨stem ++ b :: rest⟩ value = some (after, some old))
    (htaken : removeAt? true after ⟨stem ++ b :: rest⟩ = some (x, y)) :
    ∃ item left zs, xs[j + 1]? = some item ∧ ¬ left.Alike item ∧ x.at? stem = some (arr zs) ∧
      zs[j]? = some left := by
  obtain ⟨-, hbetween⟩ := removed_item hx hi hs
  have hr := replaced_below hbetween hp
  have hbw := (removeAt?_wellFormed hd hs).1
  rw [addAt?_under (List.cons_ne_nil b rest)] at hp
  obtain ⟨c, c', hc, hadd, hafter⟩ := at?_modifyAt? hp
  obtain rfl : c = arr (xs.eraseIdx i) := Option.some.inj (hc.symm.trans hbetween)
  obtain ⟨item, item', hitem, hadd', rfl⟩ := (addAt?_cons hr).mp hadd
  rw [removeAt?_under (List.cons_ne_nil b rest)] at htaken
  obtain ⟨d, d', hd', hrem, hx'⟩ := at?_modifyAt? htaken
  obtain rfl : d = (arr (xs.eraseIdx i)).setChild b item' :=
    Option.some.inj (hd'.symm.trans hafter)
  obtain ⟨found, left, hfound, hrem', rfl⟩ := (removeAt?_cons hr).mp hrem
  obtain rfl : found = item' := Option.some.inj (hfound.symm.trans (child?_setChild hitem))
  have hiw := child?_wellFormed (at?_wellFormed hbw hbetween) hitem
  obtain ⟨less, left', hless, hleft, hll⟩ := removeAt?_replaced hiw hr hadd' true
  obtain rfl : left' = left := (Prod.mk.inj (Option.some.inj (hleft.symm.trans hrem'))).1
  obtain ⟨j', hj', hget⟩ := child?_arr_eq_some.mp hitem
  obtain rfl : j' = j := Option.some.inj (hj'.symm.trans hj)
  have hlt := (List.getElem?_eq_some_iff.mp hget).1
  rw [List.getElem?_eraseIdx_of_ge hij] at hget
  rw [setChild_setChild, setChild_arr hj] at hx'
  exact ⟨item, left', _, hget,
    fun h => removeAt?_not_alike hiw hless (hll.symm.trans h), hx', List.getElem?_set_self hlt⟩

/-- Moved places are not restored: the item behind the value lacks the member. -/
theorem shifted_not_restored (hd : doc.WellFormed) (hsh : doc.Shifts ⟨s⟩ ⟨p⟩)
    (hs : removeAt? false doc ⟨s⟩ = some (between, value))
    (hp : addAt? between ⟨p⟩ value = some (after, some old))
    (htaken : removeAt? true after ⟨p⟩ = some (x, value)) :
    ∃ back r, addAt? x ⟨s⟩ value = some (back, r) ∧ ¬ back.Alike doc ∧
      ∀ final r', addAt? back ⟨p⟩ old = some (final, r') → ¬ final.Alike doc := by
  obtain ⟨stem, a, b, rest, xs, i, j, rfl, rfl, hx, hi, hj, hij⟩ := hsh
  obtain ⟨hv, hbetween⟩ := removed_item hx hi hs
  have hr := replaced_below hbetween hp
  obtain ⟨item, left, zs, hitem, hleft, hz, hzj⟩ := taken_item hd hx hi hj hij hs hp htaken
  have hin : i ≤ zs.length := by
    have := (List.getElem?_eq_some_iff.mp hzj).1
    omega
  have hplace : addChild a value (arr zs) = some (arr (zs.insertIdx i value), none) :=
    addChild_arr.mpr ⟨i, place?_of_none _ (by rw [place?_none, hi]), hin, rfl, rfl⟩
  obtain ⟨back, hback⟩ := modifyAt?_of_at? hz hplace
  have hat : back.at? stem = some (arr (zs.insertIdx i value)) := by
    obtain ⟨c, c', hc, hadd, hc'⟩ := at?_modifyAt? hback
    obtain rfl : c = arr zs := Option.some.inj (hc.symm.trans hz)
    rw [hplace] at hadd
    obtain ⟨rfl, -⟩ := Prod.mk.inj (Option.some.inj hadd)
    exact hc'
  have hshift : (zs.insertIdx i value)[j + 1]? = some left := by
    rw [List.getElem?_insertIdx_of_gt (by omega), Nat.add_sub_cancel, hzj]
  refine ⟨back, none, by rw [addAt?_concat, hback], fun h => ?_, fun final r' hfinal h => ?_⟩
  · exact hleft (item_alike h hat hx hshift hitem)
  · obtain ⟨ws, hws, hsame⟩ := addAt?_item hr hj (by omega : j + 1 ≠ j) hat hfinal
    exact hleft (item_alike h hws hx (hsame.trans hshift) hitem)

end Shifted

/-- A value inserted above its own place makes an array longer. -/
theorem inserted_above_not_alike (hr : rest ≠ [])
    (hs : removeAt? false doc ⟨p ++ rest⟩ = some (between, value))
    (hp : addAt? between ⟨p⟩ value = some (after, none)) : ¬ after.Alike doc := by
  by_cases hpn : p = []
  · subst hpn
    cases hp
  · obtain ⟨stem, b, rfl⟩ := exists_concat hpn
    rw [List.append_assoc, List.singleton_append, removeAt?_under (List.cons_ne_nil b rest)] at hs
    obtain ⟨x, y, hx, hrem, hy⟩ := at?_modifyAt? hs
    obtain ⟨child, child', hc, -, rfl⟩ := (removeAt?_cons hr).mp hrem
    rw [addAt?_concat] at hp
    obtain ⟨z, w, hz, hadd, hw⟩ := at?_modifyAt? hp
    obtain rfl : z = x.setChild b child' := Option.some.inj (hz.symm.trans hy)
    intro h
    have hat := at?_alike h stem
    rw [hx, hw] at hat
    cases x with
    | obj ms =>
      have hget := (Prod.mk.inj (Option.some.inj hadd)).2
      rw [Members.get?_put_same] at hget
      cases hget
    | arr xs =>
      obtain ⟨i, -, hle, rfl, -⟩ := addChild_arr.mp hadd
      have hlen := alike_arr_length (Option.some.inj hat)
      rw [List.length_insertIdx_of_le_length hle, List.length_set] at hlen
      omega
    | _ => cases hc

end Moves

end ClusterConfig.Json
