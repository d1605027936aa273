import ClusterConfig.Json.Pointer
import ClusterConfig.Proofs.Documents.Members

/-!
# Documents without the order of members

Two documents are alike if they are equal once the members of every object are taken as a function
of names. In a well-formed document the names of each object differ, as reading and writing keep
them; only then does removing a member make its name lead nowhere.
-/

set_option autoImplicit false

namespace ClusterConfig.Json

/-- A document whose objects are functions of names. -/
inductive Unordered where
  | null
  | bool (value : Bool)
  | int (value : Int)
  | float (value : Binary64)
  | str (value : String)
  | arr (items : List Unordered)
  | obj (members : String → Option Unordered)

mutual

def unordered : Json → Unordered
  | .null => .null
  | .bool value => .bool value
  | .int value => .int value
  | .float value => .float value
  | .str value => .str value
  | .arr items => .arr (unorderedItems items)
  | .obj members => .obj (unorderedMembers members)

def unorderedItems : List Json → List Unordered
  | [] => []
  | item :: rest => unordered item :: unorderedItems rest

def unorderedMembers : List (String × Json) → String → Option Unordered
  | [], _ => none
  | (name, value) :: rest, key =>
    if name = key then some (unordered value) else unorderedMembers rest key

end

/-- Equality up to the order of members. -/
def Alike (a b : Json) : Prop := a.unordered = b.unordered

mutual

/-- The names of every object differ. -/
def WellFormed : Json → Prop
  | .arr items => WellFormedItems items
  | .obj members => (Members.keys members).Nodup ∧ WellFormedMembers members
  | _ => True

def WellFormedItems : List Json → Prop
  | [] => True
  | item :: rest => WellFormed item ∧ WellFormedItems rest

def WellFormedMembers : List (String × Json) → Prop
  | [] => True
  | (_, value) :: rest => WellFormed value ∧ WellFormedMembers rest

end

variable {a b c x y : Json} {ms ns : Members Json} {xs ys : List Json}

theorem unorderedItems_eq_map (items : List Json) : unorderedItems items = items.map unordered := by
  induction items with
  | nil => rfl
  | cons item rest ih => rw [unorderedItems, ih, List.map_cons]

theorem unorderedMembers_eq_get? (members : Members Json) (name : String) :
    unorderedMembers members name = (Members.get? members name).map unordered := by
  induction members with
  | nil => rfl
  | cons entry rest ih =>
    by_cases h : entry.1 = name <;> simp [unorderedMembers, Members.get?, h, ih]

theorem wellFormed_arr : (arr xs).WellFormed ↔ ∀ item ∈ xs, item.WellFormed := by
  rw [WellFormed]
  induction xs with
  | nil => simp [WellFormedItems]
  | cons item rest ih => simp [WellFormedItems, ih]

theorem wellFormedMembers_iff : WellFormedMembers ms ↔ ∀ entry ∈ ms, entry.2.WellFormed := by
  induction ms with
  | nil => simp [WellFormedMembers]
  | cons entry rest ih => simp [WellFormedMembers, ih]

theorem wellFormed_obj :
    (obj ms).WellFormed ↔ (Members.keys ms).Nodup ∧ ∀ entry ∈ ms, entry.2.WellFormed := by
  rw [WellFormed, wellFormedMembers_iff]

/-! ## Alike documents -/

namespace Alike

theorem refl (a : Json) : a.Alike a := rfl

theorem symm (h : a.Alike b) : b.Alike a := Eq.symm h

theorem trans (h : a.Alike b) (h' : b.Alike c) : a.Alike c := Eq.trans h h'

end Alike

theorem alike_obj : (obj ms).Alike (obj ns) ↔
    ∀ name, (Members.get? ms name).map unordered = (Members.get? ns name).map unordered := by
  have h : (obj ms).Alike (obj ns) ↔
      Unordered.obj (unorderedMembers ms) = .obj (unorderedMembers ns) := .rfl
  rw [h, Unordered.obj.injEq, funext_iff]
  simp only [unorderedMembers_eq_get?]

theorem alike_arr : (arr xs).Alike (arr ys) ↔ xs.map unordered = ys.map unordered := by
  have h : (arr xs).Alike (arr ys) ↔
      Unordered.arr (unorderedItems xs) = .arr (unorderedItems ys) := .rfl
  rw [h, Unordered.arr.injEq, unorderedItems_eq_map, unorderedItems_eq_map]

theorem alike_obj_left (h : (obj ms).Alike b) : ∃ ns, b = obj ns := by
  cases b with
  | obj ns => exact ⟨ns, rfl⟩
  | _ => cases h

theorem alike_arr_left (h : (arr xs).Alike b) : ∃ ys, b = arr ys := by
  cases b with
  | arr ys => exact ⟨ys, rfl⟩
  | _ => cases h

theorem alike_arr_length (h : (arr xs).Alike (arr ys)) : xs.length = ys.length := by
  simpa using congrArg List.length (alike_arr.mp h)

theorem alike_arr_getElem? (h : (arr xs).Alike (arr ys)) (i : Nat) :
    xs[i]?.map unordered = ys[i]?.map unordered := by
  rw [← List.getElem?_map, ← List.getElem?_map, alike_arr.mp h]

/-- Optional values that are alike give related results. -/
theorem rel_map_alike {β γ : Type} {o p : Option Json} {f : Json → β} {g : Json → γ}
    {R : β → γ → Prop} (h : o.map unordered = p.map unordered)
    (hfg : ∀ x y, x.Alike y → R (f x) (g y)) : Option.Rel R (o.map f) (p.map g) := by
  cases o <;> cases p
  case none.none => exact Option.Rel.none
  case some.some x y => exact Option.Rel.some (hfg x y (Option.some.inj h))
  all_goals cases h

theorem alike_put (h : (obj ms).Alike (obj ns)) (hx : x.Alike y) (name : String) :
    (obj (Members.put ms name x)).Alike (obj (Members.put ns name y)) := by
  rw [alike_obj] at h ⊢
  intro other
  rw [Members.get?_put, Members.get?_put]
  split
  · exact congrArg some hx
  · exact h other

theorem alike_remove (hm : (Members.keys ms).Nodup) (hn : (Members.keys ns).Nodup)
    (h : (obj ms).Alike (obj ns)) (name : String) :
    (obj (Members.remove ms name)).Alike (obj (Members.remove ns name)) := by
  rw [alike_obj] at h ⊢
  intro other
  rw [Members.get?_remove hm, Members.get?_remove hn]
  split
  · rfl
  · exact h other

/-- A removed member that is put back is at the end, which makes no difference. -/
theorem alike_put_remove {name : String} (hm : (Members.keys ms).Nodup)
    (h : Members.get? ms name = some x) :
    (obj (Members.put (Members.remove ms name) name x)).Alike (obj ms) := by
  rw [alike_obj]
  intro other
  rw [Members.get?_put]
  by_cases ho : other = name
  · rw [if_pos ho, ho, h]
  · rw [if_neg ho, Members.get?_remove_other hm ho]

end ClusterConfig.Json
