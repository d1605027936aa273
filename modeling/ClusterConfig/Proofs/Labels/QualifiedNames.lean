import Mathlib
import ClusterConfig.Labels
import ClusterConfig.Proofs.Network.DnsNames
import ClusterConfig.Proofs.Patches.Conversion

/-!
# Qualified names

A key is a name, or a domain name in lower case, a slash and a name. The check splits it at its
slashes, of which neither part has any, so there is only one way to read a key.
-/

set_option autoImplicit false

namespace ClusterConfig.Labels

open DnsName (HasLabels isLowerAlnum problems subdomain)
open Text (trimChars isBlank)

variable {c : Char} {s : List Char}

/-! ## Qualified names -/

structure IsKeyName (s : List Char) : Prop where
  framed : IsFramed Char.isAlphanum isInner s
  short : s.length ≤ 63

/-- Labels in lower case with dots between them, each of any size. -/
structure IsKeyPrefix (s : List Char) : Prop where
  labels : HasLabels isLowerAlnum s
  short : s.length ≤ 253

/-- A name, or a prefix, a slash and a name. -/
inductive IsQualified : List Char → Prop
  | plain {name : List Char} (h : IsKeyName name) : IsQualified name
  | prefixed {part name : List Char} (hp : IsKeyPrefix part) (hn : IsKeyName name) :
    IsQualified (part ++ '/' :: name)

/-! ## Characters -/

theorem isInner_iff : isInner c = true ↔ c.isAlphanum = true ∨ c = '-' ∨ c = '_' ∨ c = '.' := by
  simp [isInner, or_assoc]

theorem ascii_of_isInner (h : isInner c = true) : c.val ≤ 127 := by
  obtain h | rfl | rfl | rfl := isInner_iff.mp h
  · exact Text.ascii_of_isAlphanum h
  all_goals decide

theorem isBlank_of_isInner (h : isInner c = true) : isBlank c = false := by
  obtain h | rfl | rfl | rfl := isInner_iff.mp h
  · exact Text.isBlank_of_isAlphanum h
  all_goals decide

theorem isInner_of_hasLabels (h : HasLabels isLowerAlnum s) : ∀ c ∈ s, isInner c = true := by
  intro c hc
  have hname := (DnsName.isName_iff_hasLabels (by decide)).mpr h
  obtain halnum | rfl | rfl := DnsName.chars_of_isName hname c hc
  · exact isInner_iff.mpr (.inl (DnsName.isAlphanum_of_isLowerAlnum halnum))
  all_goals decide

theorem ne_nil_of_hasLabels (h : HasLabels isLowerAlnum s) : s ≠ [] :=
  DnsName.ne_nil_of_isName ((DnsName.isName_iff_hasLabels (by decide)).mpr h)

theorem byteCount_of_hasLabels (h : HasLabels isLowerAlnum s) : Text.byteCount s = s.length :=
  Text.byteCount_eq_length fun c hc => ascii_of_isInner (isInner_of_hasLabels h c hc)

theorem byteCount_of_isFramed (h : IsFramed Char.isAlphanum isInner s) :
    Text.byteCount s = s.length :=
  Text.byteCount_eq_length fun c hc => ascii_of_isInner (h.inside c hc)

theorem IsKeyPrefix.no_slash (h : IsKeyPrefix s) : '/' ∉ s := fun hm =>
  absurd (isInner_of_hasLabels h.labels '/' hm) (by decide)

theorem IsKeyName.no_slash (h : IsKeyName s) : '/' ∉ s := fun hm =>
  absurd (h.framed.inside '/' hm) (by decide)

theorem IsQualified.no_blank (h : IsQualified s) : ∀ c ∈ s, isBlank c = false := by
  intro c hc
  cases h with
  | plain hn => exact isBlank_of_isInner (hn.framed.inside c hc)
  | prefixed hp hn =>
    obtain hc | hc := List.mem_append.mp hc
    · exact isBlank_of_isInner (isInner_of_hasLabels hp.labels c hc)
    obtain rfl | hc := List.mem_cons.mp hc
    · decide
    · exact isBlank_of_isInner (hn.framed.inside c hc)

/-! ## The check -/

theorem isName_iff : isName s = true ↔ IsFramed Char.isAlphanum isInner s := by
  cases s with
  | nil => simp [isName, isFramed_iff]
  | cons c rest =>
    cases hlast : (c :: rest).getLast? with
    | none => simp at hlast
    | some d =>
      simp only [isName, isFramed_iff, hlast, Bool.and_eq_true, List.all_eq_true, Option.map_some,
        Option.getD_some, List.forall_mem_cons, List.head?_cons, Option.mem_some_iff]
      constructor
      · rintro ⟨⟨hc, hrest⟩, hd⟩
        exact ⟨List.cons_ne_nil _ _, ⟨isInner_iff.mpr (.inl hc), hrest⟩, by simpa using hc,
          by simpa using hd⟩
      · rintro ⟨-, ⟨-, hrest⟩, hc, hd⟩
        exact ⟨⟨hc c rfl, hrest⟩, hd d rfl⟩

theorem checkName_eq_ok : checkName s = .ok () ↔ IsKeyName s := by
  have hok : checkName s = .ok () ↔ Text.byteCount s ≤ 63 ∧ IsFramed Char.isAlphanum isInner s := by
    rw [checkName, ← isName_iff]
    split <;> simp_all
  rw [hok]
  constructor
  · rintro ⟨hshort, hframed⟩
    exact ⟨hframed, byteCount_of_isFramed hframed ▸ hshort⟩
  · rintro ⟨hframed, hshort⟩
    exact ⟨(byteCount_of_isFramed hframed).symm ▸ hshort, hframed⟩

theorem checkPrefix_eq_ok : checkPrefix s = .ok () ↔ IsKeyPrefix s := by
  have hok : checkPrefix s = .ok () ↔
      (s ≠ [] ∧ Text.byteCount s ≤ 253) ∧ HasLabels isLowerAlnum s := by
    rw [checkPrefix, ← DnsName.isName_iff_hasLabels (by decide)]
    split <;> simp_all
  rw [hok]
  constructor
  · rintro ⟨⟨-, hshort⟩, hlabels⟩
    exact ⟨hlabels, byteCount_of_hasLabels hlabels ▸ hshort⟩
  · rintro ⟨hlabels, hshort⟩
    rw [← byteCount_of_hasLabels hlabels] at hshort
    exact ⟨⟨ne_nil_of_hasLabels hlabels, hshort⟩, hlabels⟩

/-- A host name is a prefix, and a prefix is a host name if none of its labels is too long. -/
theorem hostName_iff_prefix (text : String) :
    problems subdomain text = [] ↔
      IsKeyPrefix text.toList ∧ ∀ label ∈ text.toList.splitOn '.', label.length ≤ 63 := by
  have hname : problems subdomain text = [] ↔ DnsName.IsDnsName isLowerAlnum text text.toList :=
    DnsName.problems_eq_nil text fun c => DnsName.isAlphanum_of_isLowerAlnum
  have hsize (hlabels : HasLabels isLowerAlnum text.toList) :
      text.utf8ByteSize = text.toList.length := by
    rw [← Text.byteCount_toList, byteCount_of_hasLabels hlabels]
  rw [hname]
  constructor
  · rintro ⟨-, hshort, hlabels⟩
    have hall : HasLabels isLowerAlnum text.toList := fun label hm => (hlabels label hm).1
    exact ⟨⟨hall, hsize hall ▸ hshort⟩, fun label hm => (hlabels label hm).2⟩
  · rintro ⟨⟨hlabels, hshort⟩, hshortLabels⟩
    rw [← hsize hlabels] at hshort
    refine ⟨?_, hshort, fun label hm => ⟨hlabels label hm, hshortLabels label hm⟩⟩
    rw [hsize hlabels]
    exact List.length_pos_of_ne_nil (ne_nil_of_hasLabels hlabels)

theorem checkKey_eq_ok (key : String) :
    checkKey key = .ok () ↔ IsQualified (trimChars key.toList) := by
  rw [checkKey]
  generalize trimChars key.toList = s
  constructor
  · intro h
    split at h
    · cases h
    split at h
    · rename_i name hsplit
      obtain rfl : name = s := by
        simpa [hsplit] using Text.intercalate_splitAll '/' s
      exact .plain (checkName_eq_ok.mp h)
    · rename_i part name hsplit
      obtain rfl : part ++ '/' :: name = s := by
        simpa [hsplit, List.intercalate] using Text.intercalate_splitAll '/' s
      obtain ⟨⟨⟩, hp, hn⟩ := Patch.bind_eq_ok.mp h
      exact .prefixed (checkPrefix_eq_ok.mp hp) (checkName_eq_ok.mp hn)
    · cases h
  · intro h
    cases h with
    | plain hn =>
      rw [if_neg (by simpa using hn.framed.not_empty), Text.splitAll_of_not_mem hn.no_slash]
      exact checkName_eq_ok.mpr hn
    | prefixed hp hn =>
      rw [if_neg (by simp), Text.splitAll_append, Text.splitAll_of_not_mem hp.no_slash,
        Text.splitAll_of_not_mem hn.no_slash]
      exact Patch.bind_eq_ok.mpr ⟨(), checkPrefix_eq_ok.mpr hp, checkName_eq_ok.mpr hn⟩

theorem IsQualified.trimmed {key : String} (h : IsQualified key.toList) :
    trimChars key.toList = key.toList :=
  Text.trimChars_of_not_blank h.no_blank

end ClusterConfig.Labels
