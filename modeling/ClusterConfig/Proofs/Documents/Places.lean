import ClusterConfig.Json.Reader
import ClusterConfig.Proofs.Documents.Unordered
import ClusterConfig.Yaml.Document

/-!
# Places in documents

A child that is set is found, and setting it back restores the document. A change at a chain of
names is a change of what is found there; it can be undone where the change can, it keeps documents
well formed, and it does not see the order of members.

A mapping that names a key twice becomes an object with one member of that name, so every document
that is read is well formed.
-/

set_option autoImplicit false

namespace ClusterConfig.Json

variable {a b doc after x y z : Json} {name other : String} {xs : List Json} {ms : Members Json}

/-! ## Indices -/

theorem digitChar_of_isDigit {c : Char} (h : c.isDigit = true) :
    c.toNat - '0'.toNat < 10 ∧ Nat.digitChar (c.toNat - '0'.toNat) = c := by
  obtain ⟨hl, hu⟩ := Char.isDigit_iff_toNat.mp h
  have h0 : '0'.toNat = 48 := rfl
  have h9 : '9'.toNat = 57 := rfl
  rw [h0] at hl ⊢
  rw [h9] at hu
  refine ⟨by omega, Char.toNat_inj.mp ?_⟩
  rw [Nat.toNat_digitChar_of_lt_ten (by omega)]
  omega

/-- Reading digits behind a positive number writes them behind its digits. -/
theorem toDigits_foldl {digits : List Char} (hd : ∀ c ∈ digits, c.isDigit = true) {n : Nat}
    (hn : 0 < n) :
    Nat.toDigits 10 (digits.foldl (fun acc c => acc * 10 + (c.toNat - '0'.toNat)) n) =
      Nat.toDigits 10 n ++ digits := by
  induction digits generalizing n with
  | nil => simp
  | cons c rest ih =>
    obtain ⟨hlt, hc⟩ := digitChar_of_isDigit (hd c List.mem_cons_self)
    have hstep := Nat.toDigits_append_toDigits (b := 10) (by decide) hn hlt
    rw [Nat.toDigits_of_lt_base hlt, hc, Nat.mul_comm] at hstep
    rw [List.foldl_cons, ih (fun d h => hd d (List.mem_cons_of_mem _ h)) (by omega), ← hstep]
    simp

/-- Digits without a zero in front are those of their number. -/
theorem toDigits_digitsValue {digits : List Char} (hd : ∀ c ∈ digits, c.isDigit = true)
    (hne : digits ≠ []) (hlead : 1 < digits.length → digits.head? ≠ some '0') :
    Nat.toDigits 10 (digitsValue digits) = digits := by
  obtain ⟨c, tail, rfl⟩ := List.exists_cons_of_ne_nil hne
  obtain ⟨hlt, hc⟩ := digitChar_of_isDigit (hd c List.mem_cons_self)
  have htail : ∀ d ∈ tail, d.isDigit = true := fun d hm => hd d (List.mem_cons_of_mem _ hm)
  rw [digitsValue, List.foldl_cons, Nat.zero_mul, Nat.zero_add]
  cases tail with
  | nil => rw [List.foldl_nil, Nat.toDigits_of_lt_base hlt, hc]
  | cons d more =>
    have hpos : 0 < c.toNat - '0'.toNat := by
      refine Nat.pos_of_ne_zero fun hz => hlead (by simp) ?_
      rw [List.head?_cons, ← hc, hz]
      rfl
    rw [toDigits_foldl htail hpos, Nat.toDigits_of_lt_base hlt, hc]
    rfl

/-- An index is spelled in one way only. -/
theorem toList_of_index? {i : Nat} (h : index? name = some i) : name.toList = Nat.toDigits 10 i := by
  unfold index? at h
  split at h
  case h_1 => cases h
  case h_2 hz =>
    rw [hz, ← Option.some.inj h]
    rfl
  case h_3 => cases h
  case h_4 hempty hzero hlead =>
    split at h
    case isFalse => cases h
    case isTrue hall =>
      have hhead : name.toList.head? ≠ some '0' := fun h0 => by
        obtain ⟨rest, hrest⟩ := List.head?_eq_some_iff.mp h0
        exact hlead rest hrest
      have hdigits := toDigits_digitsValue (List.all_eq_true.mp hall) hempty fun _ => hhead
      rw [← Option.some.inj h]
      exact hdigits.symm

theorem index?_injective {i : Nat} (h : index? name = some i) (h' : index? other = some i) :
    name = other :=
  String.toList_inj.mp ((toList_of_index? h).trans (toList_of_index? h').symm)

/-! ## Children -/

theorem child?_arr_eq_some :
    (arr xs).child? name = some x ↔ ∃ i, index? name = some i ∧ xs[i]? = some x := by
  simp only [child?, Option.bind_eq_some_iff]

theorem setChild_arr {i : Nat} (h : index? name = some i) :
    (arr xs).setChild name x = arr (xs.set i x) := by
  rw [setChild, h, Option.getD_some]

theorem child?_setChild (h : doc.child? name = some x) : (doc.setChild name y).child? name = some y := by
  cases doc with
  | obj ms => exact Members.get?_put_same ms name y
  | arr xs =>
    obtain ⟨i, hi, hx⟩ := child?_arr_eq_some.mp h
    have hlt : i < xs.length := (List.getElem?_eq_some_iff.mp hx).1
    rw [setChild_arr hi, child?_arr_eq_some]
    exact ⟨i, hi, List.getElem?_set_self hlt⟩
  | _ => cases h

theorem child?_setChild_other (hn : other ≠ name) :
    (doc.setChild name y).child? other = doc.child? other := by
  cases doc with
  | obj ms => exact Members.get?_put_other ms y hn
  | arr xs =>
    cases hi : index? name with
    | none => simp [setChild, child?, hi, List.set_eq_of_length_le]
    | some i =>
      rw [setChild_arr hi, child?, child?]
      cases hj : index? other with
      | none => rfl
      | some j =>
        have hij : i ≠ j := fun e => hn (index?_injective hj (e ▸ hi))
        simp [List.getElem?_set_ne hij]
  | _ => rfl

theorem setChild_setChild (doc : Json) (name : String) (y z : Json) :
    (doc.setChild name y).setChild name z = doc.setChild name z := by
  cases doc with
  | obj ms => simp only [setChild, Members.put_put]
  | arr xs => simp only [setChild, List.length_set, List.set_set]
  | _ => rfl

theorem setChild_child (h : doc.child? name = some x) : doc.setChild name x = doc := by
  cases doc with
  | obj ms => rw [setChild, Members.put_get? h]
  | arr xs =>
    obtain ⟨i, hi, hx⟩ := child?_arr_eq_some.mp h
    obtain ⟨hlt, hget⟩ := List.getElem?_eq_some_iff.mp hx
    rw [setChild_arr hi, ← hget, List.set_getElem_self]
  | _ => rfl

theorem child?_wellFormed (hd : doc.WellFormed) (h : doc.child? name = some x) : x.WellFormed := by
  cases doc with
  | obj ms => exact (wellFormed_obj.mp hd).2 _ (Members.mem_of_get? h)
  | arr xs =>
    obtain ⟨i, -, hx⟩ := child?_arr_eq_some.mp h
    exact wellFormed_arr.mp hd x (List.mem_of_getElem? hx)
  | _ => cases h

theorem setChild_wellFormed (hd : doc.WellFormed) (hx : x.WellFormed) (name : String) :
    (doc.setChild name x).WellFormed := by
  cases doc with
  | obj ms =>
    obtain ⟨hn, hm⟩ := wellFormed_obj.mp hd
    refine wellFormed_obj.mpr ⟨Members.nodup_put hn name x, fun entry h => ?_⟩
    rcases Members.mem_put h with h | h
    · exact hm entry h
    · rwa [h]
  | arr xs =>
    refine wellFormed_arr.mpr fun item h => ?_
    rcases List.mem_or_eq_of_mem_set h with h | h
    · exact wellFormed_arr.mp hd item h
    · rwa [h]
  | _ => exact hd

theorem child?_alike (h : a.Alike b) (name : String) :
    (a.child? name).map unordered = (b.child? name).map unordered := by
  cases a with
  | obj ms =>
    obtain ⟨ns, rfl⟩ := alike_obj_left h
    exact alike_obj.mp h name
  | arr xs =>
    obtain ⟨ys, rfl⟩ := alike_arr_left h
    simp only [child?]
    cases index? name with
    | none => rfl
    | some i => exact alike_arr_getElem? h i
  | _ => cases b <;> first | rfl | cases h

theorem setChild_alike (h : a.Alike b) (hx : x.Alike y) (name : String) :
    (a.setChild name x).Alike (b.setChild name y) := by
  cases a with
  | obj ms =>
    obtain ⟨ns, rfl⟩ := alike_obj_left h
    exact alike_put h hx name
  | arr xs =>
    obtain ⟨ys, rfl⟩ := alike_arr_left h
    rw [setChild, setChild, alike_arr, List.map_set, List.map_set, alike_arr.mp h,
      alike_arr_length h, show x.unordered = y.unordered from hx]
  | _ => cases b <;> first | exact h | cases h

/-! ## Chains of names -/

theorem at?_wellFormed {names : List String} (hd : doc.WellFormed) (h : doc.at? names = some x) :
    x.WellFormed := by
  induction names generalizing doc with
  | nil =>
    obtain rfl : doc = x := Option.some.inj h
    exact hd
  | cons name rest ih =>
    obtain ⟨child, hc, hx⟩ := Option.bind_eq_some_iff.mp h
    exact ih (child?_wellFormed hd hc) hx

theorem at?_alike (h : a.Alike b) (names : List String) :
    (a.at? names).map unordered = (b.at? names).map unordered := by
  induction names generalizing a b with
  | nil => exact congrArg some h
  | cons name rest ih =>
    have hc := child?_alike h name
    rw [at?_cons, at?_cons]
    cases ha : a.child? name with
    | none =>
      rw [ha] at hc
      rw [Option.map_eq_none_iff.mp hc.symm]
    | some x =>
      rw [ha] at hc
      obtain ⟨y, hb, hxy⟩ := Option.map_eq_some_iff.mp hc.symm
      rw [hb]
      exact ih (Eq.symm hxy)

/-! ## Changes at a place -/

section Changes

variable {α β : Type} {f : Json → Option (Json × α)} {g : Json → Option (Json × β)}
  {names : List String} {r : α} {s : β}

theorem modifyAt?_cons : modifyAt? f doc (name :: names) = some (after, r) ↔
    ∃ child new, doc.child? name = some child ∧ modifyAt? f child names = some (new, r) ∧
      after = doc.setChild name new := by
  rw [modifyAt?]
  constructor
  · intro h
    obtain ⟨child, hc, h⟩ := Option.bind_eq_some_iff.mp h
    obtain ⟨⟨new, r'⟩, hm, h⟩ := Option.bind_eq_some_iff.mp h
    obtain ⟨rfl, rfl⟩ := Prod.mk.inj (Option.some.inj h)
    exact ⟨child, new, hc, hm, rfl⟩
  · rintro ⟨child, new, hc, hm, rfl⟩
    rw [hc]
    simp only [Option.bind_eq_bind, Option.bind_some, hm]

/-- A change is one of what is found at its place. -/
theorem at?_modifyAt? (h : modifyAt? f doc names = some (after, r)) :
    ∃ old new, doc.at? names = some old ∧ f old = some (new, r) ∧ after.at? names = some new := by
  induction names generalizing doc after with
  | nil => exact ⟨doc, after, rfl, h, rfl⟩
  | cons name rest ih =>
    obtain ⟨child, new, hc, hm, rfl⟩ := modifyAt?_cons.mp h
    obtain ⟨old, found, ho, hf, hn⟩ := ih hm
    refine ⟨old, found, ?_, hf, ?_⟩
    · rw [at?_cons, hc, Option.bind_some, ho]
    · rw [at?_cons, child?_setChild hc, Option.bind_some, hn]

/-- A change of what is found at a place succeeds. -/
theorem modifyAt?_of_at? {old new : Json} (h : doc.at? names = some old) (hf : f old = some (new, r)) :
    ∃ after, modifyAt? f doc names = some (after, r) := by
  induction names generalizing doc with
  | nil =>
    obtain rfl : doc = old := Option.some.inj h
    exact ⟨new, hf⟩
  | cons name rest ih =>
    obtain ⟨child, hc, ho⟩ := Option.bind_eq_some_iff.mp h
    obtain ⟨after, ha⟩ := ih ho
    exact ⟨_, modifyAt?_cons.mpr ⟨child, after, hc, ha, rfl⟩⟩

theorem modifyAt?_append (f : Json → Option (Json × α)) (doc : Json) (stem rest : List String) :
    modifyAt? f doc (stem ++ rest) = modifyAt? (fun x => modifyAt? f x rest) doc stem := by
  induction stem generalizing doc with
  | nil => rfl
  | cons name stem ih =>
    rw [List.cons_append, modifyAt?, modifyAt?]
    simp only [ih]

/-- A change is undone at its place, exactly or up to what setting a child keeps. -/
theorem modifyAt?_back (R : Json → Json → Prop)
    (hset : ∀ {doc name x y}, doc.child? name = some x → R y x → R (doc.setChild name y) doc)
    (hback : ∀ old new, old.WellFormed → f old = some (new, r) →
      ∃ back, g new = some (back, s) ∧ R back old)
    (hd : doc.WellFormed) (h : modifyAt? f doc names = some (after, r)) :
    ∃ back, modifyAt? g after names = some (back, s) ∧ R back doc := by
  induction names generalizing doc after with
  | nil => exact hback doc after hd h
  | cons name rest ih =>
    obtain ⟨child, new, hc, hm, rfl⟩ := modifyAt?_cons.mp h
    obtain ⟨back, hb, hr⟩ := ih (child?_wellFormed hd hc) hm
    refine ⟨doc.setChild name back, modifyAt?_cons.mpr ⟨new, back, child?_setChild hc, hb, ?_⟩,
      hset hc hr⟩
    rw [setChild_setChild]

/-- Two changes, one before and one after a third, compare as they do at its place. -/
theorem modifyAt?_around {γ : Type} {g' : Json → Option (Json × γ)} {t : γ}
    (hstep : ∀ old new, old.WellFormed → f old = some (new, r) →
      ∃ x y, g old = some (x, s) ∧ g' new = some (y, t) ∧ y.Alike x)
    (hd : doc.WellFormed) (h : modifyAt? f doc names = some (after, r)) :
    ∃ x y, modifyAt? g doc names = some (x, s) ∧ modifyAt? g' after names = some (y, t) ∧
      y.Alike x := by
  induction names generalizing doc after with
  | nil => exact hstep doc after hd h
  | cons name rest ih =>
    obtain ⟨child, new, hc, hm, rfl⟩ := modifyAt?_cons.mp h
    obtain ⟨x, y, hx, hy, hxy⟩ := ih (child?_wellFormed hd hc) hm
    refine ⟨doc.setChild name x, doc.setChild name y, modifyAt?_cons.mpr ⟨child, x, hc, hx, rfl⟩,
      modifyAt?_cons.mpr ⟨new, y, child?_setChild hc, hy, ?_⟩,
      setChild_alike (Alike.refl doc) hxy name⟩
    rw [setChild_setChild]

theorem modifyAt?_wellFormed {P : α → Prop}
    (hf : ∀ old new, old.WellFormed → f old = some (new, r) → new.WellFormed ∧ P r)
    (hd : doc.WellFormed) (h : modifyAt? f doc names = some (after, r)) :
    after.WellFormed ∧ P r := by
  induction names generalizing doc after with
  | nil => exact hf doc after hd h
  | cons name rest ih =>
    obtain ⟨child, new, hc, hm, rfl⟩ := modifyAt?_cons.mp h
    obtain ⟨hn, hp⟩ := ih (child?_wellFormed hd hc) hm
    exact ⟨setChild_wellFormed hd hn name, hp⟩

/-- Changes that agree on alike values agree on alike documents, in what else they give as well. -/
theorem modifyAt?_alike (R : α → β → Prop)
    (hfg : ∀ x y, x.WellFormed → y.WellFormed → x.Alike y →
      Option.Rel (fun p q => p.1.Alike q.1 ∧ R p.2 q.2) (f x) (g y))
    (ha : a.WellFormed) (hb : b.WellFormed) (h : a.Alike b) :
    Option.Rel (fun p q => p.1.Alike q.1 ∧ R p.2 q.2) (modifyAt? f a names)
      (modifyAt? g b names) := by
  induction names generalizing a b with
  | nil => exact hfg a b ha hb h
  | cons name rest ih =>
    have hc := child?_alike h name
    cases hx : a.child? name with
    | none =>
      rw [hx] at hc
      simp only [modifyAt?, hx, Option.map_eq_none_iff.mp hc.symm]
      exact Option.Rel.none
    | some x =>
      rw [hx] at hc
      obtain ⟨y, hy, hxy⟩ := Option.map_eq_some_iff.mp hc.symm
      have hrel := ih (child?_wellFormed ha hx) (child?_wellFormed hb hy) (Eq.symm hxy)
      simp only [modifyAt?, hx, hy, Option.bind_eq_bind, Option.bind_some]
      cases hf : modifyAt? f x rest <;> cases hg : modifyAt? g y rest <;> rw [hf, hg] at hrel <;>
        cases hrel
      case none.none => exact Option.Rel.none
      case some.some hpq => exact Option.Rel.some ⟨setChild_alike h hpq.1 name, hpq.2⟩

end Changes

end ClusterConfig.Json

namespace ClusterConfig.Yaml

/-! ## Documents that are read -/

open Json (wellFormed_arr wellFormed_obj setChild_wellFormed)

theorem jsonOfPlain_wellFormed {text : String} {plain : Plain} {doc : Json}
    (h : jsonOfPlain text plain = some doc) : doc.WellFormed := by
  cases plain with
  | wide => cases h
  | float value =>
    obtain rfl := Option.some.inj h
    split <;> simp [Json.WellFormed]
  | _ =>
    obtain rfl := Option.some.inj h
    simp [Json.WellFormed]

mutual

theorem json?_wellFormed (node : Node) {doc : Json} (h : json? node = some doc) :
    doc.WellFormed := by
  cases node with
  | scalar tag style text =>
    rw [json?] at h
    split at h
    · cases h
    · obtain ⟨plain, -, hp⟩ := Option.bind_eq_some_iff.mp h
      exact jsonOfPlain_wellFormed hp
  | sequence tag items =>
    rw [json?] at h
    split at h
    · cases h
    · obtain ⟨xs, hx, rfl⟩ := Option.map_eq_some_iff.mp h
      exact wellFormed_arr.mpr (jsonItems?_wellFormed items hx)
  | mapping tag entries =>
    rw [json?] at h
    split at h
    · cases h
    · obtain ⟨ms, hm, rfl⟩ := Option.map_eq_some_iff.mp h
      exact jsonMembers?_wellFormed entries (by simp [wellFormed_obj, Members.keys]) hm
  | unreadable => cases h

theorem jsonItems?_wellFormed (nodes : List Node) {items : List Json}
    (h : jsonItems? nodes = some items) : ∀ item ∈ items, item.WellFormed := by
  cases nodes with
  | nil =>
    obtain rfl := Option.some.inj h
    simp
  | cons node rest =>
    obtain ⟨first, hf, h⟩ := Option.bind_eq_some_iff.mp h
    obtain ⟨more, hm, h⟩ := Option.bind_eq_some_iff.mp h
    obtain rfl := Option.some.inj h
    intro item hi
    rcases List.mem_cons.mp hi with rfl | hi
    · exact json?_wellFormed node hf
    · exact jsonItems?_wellFormed rest hm item hi

theorem jsonMembers?_wellFormed (entries : List (Node × Node)) {before after : Members Json}
    (hb : (Json.obj before).WellFormed) (h : jsonMembers? before entries = some after) :
    (Json.obj after).WellFormed := by
  match entries, h with
  | [], h =>
    obtain rfl := Option.some.inj h
    exact hb
  | (.scalar _ _ name, value) :: rest, h =>
    obtain ⟨doc, hd, h⟩ := Option.bind_eq_some_iff.mp h
    exact jsonMembers?_wellFormed rest
      (setChild_wellFormed hb (json?_wellFormed value hd) name) h
  | (.sequence _ _, _) :: _, h => cases h
  | (.mapping _ _, _) :: _, h => cases h
  | (.unreadable, _) :: _, h => cases h

end

theorem parseJson?_wellFormed {text : String} {doc : Json} (h : parseJson? text = some doc) :
    doc.WellFormed := by
  obtain ⟨node, -, hd⟩ := Option.bind_eq_some_iff.mp h
  exact json?_wellFormed node hd

end ClusterConfig.Yaml
