import Mathlib
import ClusterConfig.Members

/-!
# Finding members

What is found under a name after a member was put or removed. Removing moves a member, so it is
described up to a permutation; finding does not see the order where names are distinct.
-/

set_option autoImplicit false

namespace ClusterConfig.Members

variable {α : Type} {members others : Members α} {key other : String} {value old : α}

theorem get?_put (members : Members α) (key other : String) (value : α) :
    get? (put members key value) other = if other = key then some value else get? members other := by
  by_cases h : other = key
  · rw [if_pos h, h, get?_put_same]
  · rw [if_neg h, get?_put_other members value h]

/-- Names that are not there yet are not there with another one set. -/
theorem get?_put_fresh {names : List String} (hk : key ∉ names)
    (h : ∀ name ∈ names, get? members name = none) (value : α) :
    ∀ name ∈ names, get? (put members key value) name = none := by
  intro name hname
  have hne : name ≠ key := by
    rintro rfl
    exact hk hname
  rw [get?_put_other members value hne]
  exact h name hname

theorem put_put (members : Members α) (key : String) (value new : α) :
    put (put members key value) key new = put members key new := by
  induction members with
  | nil => simp [put]
  | cons entry rest ih => by_cases h : entry.1 = key <;> simp [put, h, ih]

theorem put_get? (h : get? members key = some value) : put members key value = members := by
  induction members with
  | nil => simp [get?] at h
  | cons entry rest ih =>
    by_cases hk : entry.1 = key
    · simp only [get?, hk, if_true, Option.some.injEq] at h
      rw [put, if_pos hk, ← h]
    · simp only [get?, hk, if_false] at h
      rw [put, if_neg hk, ih h]

theorem remove_put (h : get? members key = none) : remove (put members key value) key = members := by
  induction members with
  | nil => simp [put, remove]
  | cons entry rest ih =>
    by_cases hk : entry.1 = key
    · simp [get?, hk] at h
    · simp only [get?, hk, if_false] at h
      simp [put, remove, hk, ih h]

theorem mem_of_get? (h : get? members key = some value) : (key, value) ∈ members := by
  induction members with
  | nil => simp [get?] at h
  | cons entry rest ih =>
    by_cases hk : entry.1 = key
    · simp only [get?, hk, if_true, Option.some.injEq] at h
      simp [← hk, ← h]
    · simp only [get?, hk, if_false] at h
      exact List.mem_cons_of_mem _ (ih h)

theorem get?_of_mem (hd : members.keys.Nodup) (h : (key, value) ∈ members) :
    get? members key = some value := by
  induction members with
  | nil => simp at h
  | cons entry rest ih =>
    obtain ⟨hn, hr⟩ := List.nodup_cons.mp hd
    rcases List.mem_cons.mp h with rfl | hm
    · simp [get?]
    · have hk : entry.1 ≠ key := fun e => hn (e ▸ List.mem_map_of_mem (f := Prod.fst) hm)
      simpa [get?, hk] using ih hr hm

theorem get?_eq_some_iff (hd : members.keys.Nodup) :
    get? members key = some value ↔ (key, value) ∈ members :=
  ⟨mem_of_get?, get?_of_mem hd⟩

theorem get?_eq_none_iff : get? members key = none ↔ key ∉ members.keys := by
  induction members with
  | nil => simp [get?, keys]
  | cons entry rest ih =>
    by_cases hk : entry.1 = key
    · simp [get?, keys, hk]
    · have hk' : key ≠ entry.1 := fun e => hk e.symm
      simpa [get?, keys, hk, hk'] using ih

theorem get?_perm (hd : members.keys.Nodup) (hp : members.Perm others) :
    get? members key = get? others key := by
  have hd' : others.keys.Nodup := (hp.map Prod.fst).nodup_iff.mp hd
  apply Option.ext
  intro value
  rw [get?_eq_some_iff hd, get?_eq_some_iff hd', hp.mem_iff]

theorem remove_eq_self (h : get? members key = none) : remove members key = members := by
  induction members with
  | nil => rfl
  | cons entry rest ih =>
    by_cases hk : entry.1 = key
    · simp [get?, hk] at h
    · simp only [get?, hk, if_false] at h
      simp [remove, hk, ih h]

/-- The removed member and the others are all there were. -/
theorem perm_remove (h : get? members key = some value) :
    members.Perm ((key, value) :: remove members key) := by
  induction members with
  | nil => simp [get?] at h
  | cons entry rest ih =>
    by_cases hk : entry.1 = key
    · simp only [get?, hk, if_true, Option.some.injEq] at h
      have hentry : entry = (key, value) := Prod.ext hk h
      rw [hentry]
      apply List.Perm.cons
      cases hlast : rest.getLast? with
      | none => simp [remove, List.getLast?_eq_none_iff.mp hlast]
      | some last =>
        have hr : rest.dropLast ++ [last] = rest := List.dropLast_append_getLast? last hlast
        simpa [remove, hlast, hr] using List.perm_append_singleton last rest.dropLast
    · simp only [get?, hk, if_false] at h
      simp only [remove, hk, if_false]
      exact ((ih h).cons entry).trans (List.Perm.swap _ _ _)

theorem nodup_put (hd : members.keys.Nodup) (key : String) (value : α) :
    (put members key value).keys.Nodup := by
  induction members with
  | nil => simp [put, keys]
  | cons entry rest ih =>
    obtain ⟨hn, hr⟩ := List.nodup_cons.mp hd
    by_cases hk : entry.1 = key
    · simpa [put, hk, keys] using hd
    · have hk' : entry.1 ∉ (put rest key value).keys := by
        rw [← get?_eq_none_iff, get?_put_other rest value hk, get?_eq_none_iff]
        exact hn
      simpa [put, hk, keys] using ⟨by simpa [keys] using hk', by simpa [keys] using ih hr⟩

theorem nodup_remove (hd : members.keys.Nodup) (key : String) : (remove members key).keys.Nodup := by
  cases h : get? members key with
  | none => rwa [remove_eq_self h]
  | some value =>
    have hp := ((perm_remove h).map Prod.fst).nodup_iff.mp hd
    exact (List.nodup_cons.mp hp).2

theorem get?_remove_same (hd : members.keys.Nodup) : get? (remove members key) key = none := by
  cases h : get? members key with
  | none => rw [remove_eq_self h, h]
  | some value =>
    have hp := ((perm_remove h).map Prod.fst).nodup_iff.mp hd
    exact get?_eq_none_iff.mpr (List.nodup_cons.mp hp).1

theorem get?_remove_other (hd : members.keys.Nodup) (ho : other ≠ key) :
    get? (remove members key) other = get? members other := by
  cases h : get? members key with
  | none => rw [remove_eq_self h]
  | some value =>
    have ho' : key ≠ other := fun e => ho e.symm
    rw [get?_perm hd (perm_remove h), get?, if_neg ho']

theorem get?_remove (hd : members.keys.Nodup) (key other : String) :
    get? (remove members key) other = if other = key then none else get? members other := by
  by_cases h : other = key
  · rw [if_pos h, h, get?_remove_same hd]
  · rw [if_neg h, get?_remove_other hd h]

theorem mem_or_eq_of_mem_put {entry : String × α} (h : entry ∈ put members key value) :
    entry ∈ members ∨ entry = (key, value) := by
  induction members with
  | nil => exact Or.inr (List.mem_singleton.mp h)
  | cons first rest ih =>
    by_cases hk : first.1 = key
    · simp only [put, hk, if_true, List.mem_cons] at h
      exact h.symm.imp_left (List.mem_cons_of_mem _)
    · simp only [put, hk, if_false, List.mem_cons] at h
      rcases h with rfl | hm
      · exact Or.inl List.mem_cons_self
      · exact (ih hm).imp_left (List.mem_cons_of_mem _)

theorem mem_put {entry : String × α} (h : entry ∈ put members key value) :
    entry ∈ members ∨ entry.2 = value :=
  (mem_or_eq_of_mem_put h).imp_right (congrArg Prod.snd)

theorem mem_of_mem_remove {entry : String × α} (h : entry ∈ remove members key) :
    entry ∈ members := by
  cases hg : get? members key with
  | none => rwa [remove_eq_self hg] at h
  | some value => exact (perm_remove hg).mem_iff.mpr (List.mem_cons_of_mem _ h)

/-! ## Putting or removing -/

/-- Puts a value under a name, or removes the name. -/
def update (members : Members α) (key : String) : Option α → Members α
  | some value => put members key value
  | none => remove members key

theorem get?_update (hd : members.keys.Nodup) (key other : String) (change : Option α) :
    get? (update members key change) other = if other = key then change else get? members other := by
  cases change with
  | none => exact get?_remove hd key other
  | some value => exact get?_put members key other value

theorem nodup_update (hd : members.keys.Nodup) (key : String) (change : Option α) :
    (update members key change).keys.Nodup := by
  cases change with
  | none => exact nodup_remove hd key
  | some value => exact nodup_put hd key value

end ClusterConfig.Members
