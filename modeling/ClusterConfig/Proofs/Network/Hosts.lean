import Mathlib
import ClusterConfig.Network.Url
import ClusterConfig.Proofs.Network.DnsNames
import ClusterConfig.Proofs.Network.Octets
import ClusterConfig.Proofs.Text.Parts

/-!
# Hosts of locations

A text in lower case is read as it stands: nothing in it is escaped, mapped or coded. The part behind
the last dot then tells octets from a name, as digits make it a number and a letter in front does not.
Groups are read between square brackets only.
-/

set_option autoImplicit false

namespace ClusterConfig

variable {c : Char} {s : List Char}

namespace Network

/-! ## Names in lower case -/

/-- A character of a name in lower case. -/
def isNameChar (c : Char) : Bool := DnsName.isLowerAlnum c || c = '-' || c = '.'

theorem code_of_isNameChar (h : isNameChar c = true) :
    (45 ≤ c.toNat ∧ c.toNat ≤ 46) ∨ (48 ≤ c.toNat ∧ c.toNat ≤ 57) ∨
      (97 ≤ c.toNat ∧ c.toNat ≤ 122) := by
  delta isNameChar DnsName.isLowerAlnum Char.isLower Char.isDigit at h
  simp [UInt32.le_iff_toNat_le] at h
  obtain (h | rfl) | rfl := h
  · omega
  · decide
  · decide

theorem percentDecoded_of_not_mem {bytes : List UInt8} (h : 0x25 ∉ bytes) :
    percentDecoded bytes = bytes := by
  induction bytes using percentDecoded.induct with
  | case1 => rfl
  | case2 a => rfl
  | case3 a b => rfl
  | case4 a b c rest byte hbyte ih =>
    have ha : a ≠ 0x25 := fun ha => h (ha ▸ List.mem_cons_self)
    simp [ha] at hbyte
  | case5 a b c rest hnone ih =>
    rw [percentDecoded, hnone, ih (List.not_mem_of_not_mem_cons h)]

theorem mappedChar_of_isNameChar (h : isNameChar c = true) : mappedChar c = [c] := by
  have hcode := code_of_isNameChar h
  have hlower : c.toLower = c := by
    refine dif_neg fun hupper => ?_
    have hlast : c.toNat ≤ 90 := UInt32.le_iff_toNat_le.mp hupper.2
    have hfirst : 65 ≤ c.toNat := UInt32.le_iff_toNat_le.mp hupper.1
    omega
  have hascii : c.toNat < 128 := by omega
  simp only [mappedChar, Text.lowerChar, if_pos hascii, hlower]
  rw [if_neg, if_neg, if_neg]
  all_goals simp [isIgnored]; omega

theorem not_isForbidden (h : isNameChar c = true) : isForbidden c = false := by
  have hcode := code_of_isNameChar h
  simp [isForbidden, ← Char.toNat_inj]
  omega

theorem not_isExtending (h : c.toNat < 128) : Text.isExtending c = false := by
  have hfirst : ∀ range ∈ Text.extendingRanges, 128 ≤ range.1 := by decide +kernel
  rw [Text.isExtending, Text.inRanges, List.any_eq_false]
  intro range hr
  have := hfirst range hr
  simp
  omega

/-- A part in lower case that is not marked as coded is a label, and stays as it is. -/
theorem isLabel_of_nameChars (h : ∀ c ∈ s, isNameChar c = true)
    (hcoded : ¬['x', 'n', '-', '-'] <+: s) : isLabel s = true ∧ asciiLabel s = s := by
  have hascii : ∀ c ∈ s, c.toNat < 128 := fun c hc => by
    have := code_of_isNameChar (h c hc)
    omega
  have hall : s.all isAscii = true := List.all_eq_true.mpr fun c hc => decide_eq_true (hascii c hc)
  have hnone : Text.afterStart? ['x', 'n', '-', '-'] s = none := by
    rw [Option.eq_none_iff_forall_ne_some]
    intro rest hrest
    exact hcoded ⟨rest, (Text.afterStart?_eq_some_iff.mp hrest).symm⟩
  have hplain : s.all (fun c => isAscii c || (Text.isPrintable c && !Text.isBlank c)) = true :=
    List.all_eq_true.mpr fun c hc => by simp [isAscii, hascii c hc]
  have hstart : s.head?.any Text.isExtending = false := by
    cases s with
    | nil => rfl
    | cons c s => exact not_isExtending (hascii c List.mem_cons_self)
  refine ⟨?_, by rw [asciiLabel, if_pos hall]⟩
  rw [isLabel, hnone]
  simp only [isInternational, hplain, hstart, Bool.not_false, Bool.and_self]

/-- A text in lower case without coded labels is the host as it stands. -/
theorem domain?_of_nameChars (h : ∀ c ∈ s, isNameChar c = true)
    (hcoded : ∀ label ∈ s.splitOn '.', ¬['x', 'n', '-', '-'] <+: label) : domain? s = some s := by
  have hascii : ∀ c ∈ s, c.val ≤ 127 := fun c hc => by
    have hcode : c.val.toNat ≤ 122 := by
      have := code_of_isNameChar (h c hc)
      rw [Char.toNat] at this
      omega
    exact UInt32.le_iff_toNat_le.mpr (hcode.trans (by decide))
  have hbytes : percentDecoded (String.ofList s).toUTF8.toList =
      (String.ofList s).toUTF8.toList := by
    refine percentDecoded_of_not_mem fun hm => ?_
    rw [Text.bytes_of_ascii hascii] at hm
    obtain ⟨c, hc, hbyte⟩ := List.mem_map.mp hm
    have hcode := code_of_isNameChar (h c hc)
    have hmod : c.toNat % 256 = 37 :=
      (UInt32.toNat_toUInt8 c.val).symm.trans (congrArg UInt8.toNat hbyte)
    omega
  have hdecoded : String.fromUTF8? ⟨(String.ofList s).toUTF8.toList.toArray⟩ =
      some (String.ofList s) := by
    rw [Text.toList_bytes, Array.toArray_toList, String.fromUTF8?]
    exact dif_pos (String.ofList s).isValidUTF8
  have hmapped : s.flatMap mappedChar = s := by
    rw [List.flatMap_congr fun c hc => mappedChar_of_isNameChar (h c hc)]
    exact List.flatMap_singleton' s
  have hlabels : ∀ label ∈ Text.splitAll '.' s, isLabel label = true ∧ asciiLabel label = label :=
    fun label hl => isLabel_of_nameChars (fun c hc => h c (Text.mem_of_mem_splitAll hl hc))
      (hcoded label (Text.splitAll_eq_splitOn '.' s ▸ hl))
  have hsame : (Text.splitAll '.' s).map asciiLabel = (Text.splitAll '.' s).map id :=
    List.map_congr_left fun label hl => (hlabels label hl).2
  have hforbidden : s.any isForbidden = false := by
    rw [List.any_eq_false]
    exact fun c hc => by simp [not_isForbidden (h c hc)]
  rw [domain?, hbytes, hdecoded]
  simp only [Option.bind_eq_bind, Option.bind_some, String.toList_ofList, hmapped, hforbidden]
  rw [if_neg, hsame, List.map_id, Text.intercalate_splitAll]
  simpa using fun label hl => (hlabels label hl).1

end Network

namespace Url

open DnsName (IsDnsName isLowerAlnum withoutLastDot)
open IpAddress (dotted isAddressChar parse?)
open Network (isNameChar)

/-! ## Numbers between dots -/

/-- The digits of an octet are the number that they spell. -/
theorem v4Number?_toDigits {n : ℕ} (hn : n < 256) :
    v4Number? (Nat.toDigits 10 n) = some (some n) := by
  revert n
  decide +kernel

/-- Only digits start a number. -/
theorem v4Number?_of_not_digit (hc : c.isDigit = false) (rest : List Char) :
    v4Number? (c :: rest) = none := by
  have hzero : c ≠ '0' := by
    rintro rfl
    cases hc
  have hvalue : (Json.hexValue? c).filter (· < 10) = none := by
    rw [IpAddress.decimalDigit_eq, hc]
    rfl
  rw [v4Number?.eq_def]
  split
  · cases ‹c :: rest = []›
  · exact absurd (List.cons.inj ‹_›).1 hzero
  · exact absurd (List.cons.inj ‹_›).1 hzero
  · exact absurd (List.cons.inj ‹_›).1 hzero
  · simp [hvalue]

theorem dotParts_eq (h : ∀ part ∈ s.splitOn '.', part ≠ []) : dotParts s = s.splitOn '.' := by
  rw [← Text.splitAll_eq_splitOn] at h ⊢
  rw [dotParts, if_neg]
  simp only [Bool.and_eq_true, decide_eq_true_eq, not_and]
  exact fun _ hlast => h [] (List.mem_of_getLast? hlast) rfl

/-- A dot at the end has no part behind it. -/
theorem dotParts_concat (s : List Char) : dotParts (s ++ ['.']) = s.splitOn '.' := by
  have hsplit : Text.splitAll '.' (s ++ ['.']) = s.splitOn '.' ++ [[]] := by
    rw [Text.splitAll_append, Text.splitAll_eq_splitOn]
    rfl
  have hparts : 0 < (s.splitOn '.').length := List.length_pos_of_ne_nil (List.splitOn_ne_nil '.' s)
  simp [dotParts, hsplit, hparts]

theorem dotParts_withoutLastDot (h : ∀ part ∈ (withoutLastDot s).splitOn '.', part ≠ []) :
    dotParts s = (withoutLastDot s).splitOn '.' := by
  rw [withoutLastDot] at h ⊢
  split at h
  · rename_i hdot
    obtain ⟨t, rfl⟩ := List.getLast?_eq_some_iff.mp hdot
    rw [if_pos hdot, List.dropLast_concat, dotParts_concat]
  · rename_i hdot
    rw [if_neg hdot, dotParts_eq h]

theorem endsInNumber_eq {rest : List Char} (h : (dotParts s).getLast? = some (c :: rest)) :
    endsInNumber s = ((c :: rest).all Char.isDigit || (v4Number? (c :: rest)).isSome) := by
  rw [endsInNumber, h]

/-! ## Reading -/

/-- A text in lower case is read by its last part. -/
theorem readHost_of_nameChars (h : ∀ c ∈ s, isNameChar c = true) (hne : s ≠ [])
    (hcoded : ∀ label ∈ s.splitOn '.', ¬['x', 'n', '-', '-'] <+: label) :
    readHost s = if endsInNumber s then
      (v4Address? s).elim (.error .invalidV4) fun address => .ok (.address address)
    else .ok (.name (String.ofList s)) := by
  rw [readHost.eq_def]
  split
  · exact absurd (h '[' List.mem_cons_self) (by decide)
  · simp only [Network.domain?_of_nameChars h hcoded]
    simp [hne]

theorem v4Address?_eq {octets : List ℕ} (h4 : octets.length = 4)
    (hlt : ∀ octet ∈ octets, octet < 256)
    (hparts : dotParts s = octets.map (Nat.toDigits 10)) :
    v4Address? s = some (.v4 octets) := by
  match octets, h4 with
  | [a, b, c, d], _ =>
    obtain ⟨ha, hb, hc, hd⟩ : a < 256 ∧ b < 256 ∧ c < 256 ∧ d < 256 := by simpa using hlt
    have hfirst : ¬(255 < a ∨ 255 < b ∨ 255 < c) := by omega
    simp only [v4Address?, hparts]
    simp [v4Number?_toDigits, ha, hb, hc, hd, hfirst, fillOctets]

theorem isNameChar_dotted (octets : List ℕ) : ∀ c ∈ (dotted octets).toList, isNameChar c = true := by
  intro c hc
  obtain hdigit | rfl := IpAddress.chars_dotted octets c hc
  · simp [isNameChar, DnsName.isLowerAlnum, hdigit]
  · decide

theorem dotParts_dotted {octets : List ℕ} (hne : octets ≠ []) :
    dotParts (dotted octets).toList = octets.map (Nat.toDigits 10) := by
  rw [← IpAddress.splitOn_dotted hne]
  refine dotParts_eq ?_
  rw [IpAddress.splitOn_dotted hne, List.forall_mem_map]
  exact fun n _ => (Text.spells_toDigits n).not_empty

theorem endsInNumber_dotted {octets : List ℕ} (hne : octets ≠ []) :
    endsInNumber (dotted octets).toList = true := by
  have hspells := Text.spells_toDigits (octets.getLast hne)
  have hlast : (dotParts (dotted octets).toList).getLast? =
      some (Nat.toDigits 10 (octets.getLast hne)) := by
    rw [dotParts_dotted hne, List.getLast?_map, List.getLast?_eq_some_getLast hne, Option.map_some]
  obtain ⟨c, rest, hcons⟩ := List.exists_cons_of_ne_nil hspells.not_empty
  rw [endsInNumber_eq (hlast.trans (congrArg some hcons)), ← hcons,
    List.all_eq_true.mpr hspells.digits, Bool.true_or]

theorem readHost_dotted {octets : List ℕ} (h4 : octets.length = 4)
    (hlt : ∀ octet ∈ octets, octet < 256) :
    readHost (dotted octets).toList = .ok (.address (.v4 octets)) := by
  have hne : octets ≠ [] := by
    rintro rfl
    cases h4
  have hcoded : ∀ part ∈ (dotted octets).toList.splitOn '.', ¬['x', 'n', '-', '-'] <+: part := by
    rw [IpAddress.splitOn_dotted hne, List.forall_mem_map]
    exact fun n _ hcoded => (Text.spells_toDigits n).no_mark (by decide)
      (hcoded.subset List.mem_cons_self)
  have hempty : (dotted octets).toList ≠ [] := fun hnil => by
    have hnumber := endsInNumber_dotted hne
    rw [hnil] at hnumber
    cases hnumber
  rw [readHost_of_nameChars (isNameChar_dotted octets) hempty hcoded,
    if_pos (endsInNumber_dotted hne), v4Address?_eq h4 hlt (dotParts_dotted hne), Option.elim_some]

theorem readHost_bracketed {groups : List ℕ} (h : parse? (String.ofList s) = some (.v6 groups)) :
    readHost ('[' :: (s ++ [']'])) = .ok (.address (.v6 groups)) := by
  rw [readHost, bracketedHost, Text.beforeEnd?_eq_some_iff.mpr rfl]
  simp only [h]

/-! ## Hosts -/

/-- A name in lower case, whose last label starts with a letter and of whose labels none is marked as
coded. A dot may end it. -/
structure IsPlainName (s : List Char) : Prop where
  name : IsDnsName isLowerAlnum (String.ofList s) (withoutLastDot s)
  letter : ∀ label ∈ ((withoutLastDot s).splitOn '.').getLast?, ∀ c ∈ label.head?, c.isAlpha = true
  plain : ∀ label ∈ s.splitOn '.', ¬['x', 'n', '-', '-'] <+: label

/-- Texts of hosts: octets, groups in square brackets and names. -/
inductive IsHost : List Char → Host → Prop
  | octets {s : List Char} {octets : List ℕ} (h : parse? (String.ofList s) = some (.v4 octets)) :
    IsHost s (.address (.v4 octets))
  | groups {s : List Char} {groups : List ℕ} (h : parse? (String.ofList s) = some (.v6 groups)) :
    IsHost ('[' :: (s ++ [']'])) (.address (.v6 groups))
  | name {s : List Char} (h : IsPlainName s) : IsHost s (.name (String.ofList s))

namespace IsPlainName

theorem labels_ne_nil (h : IsPlainName s) : ∀ label ∈ (withoutLastDot s).splitOn '.', label ≠ [] :=
  fun label hl => (h.name.labels label hl).1.not_empty

theorem chars (h : IsPlainName s) : ∀ c ∈ s, isNameChar c = true := by
  have hname : DnsName.isName isLowerAlnum true s = true := by
    rw [DnsName.isName_dotted (by decide)]
    exact (DnsName.isName_iff_hasLabels (by decide)).mpr fun label hl => (h.name.labels label hl).1
  intro c hc
  obtain hc | rfl | rfl := DnsName.chars_of_isName hname c hc
  · simp [isNameChar, hc]
  all_goals decide

theorem not_endsInNumber (h : IsPlainName s) : endsInNumber s = false := by
  have hparts := dotParts_withoutLastDot h.labels_ne_nil
  have hne := List.splitOn_ne_nil '.' (withoutLastDot s)
  have hlast := List.getLast?_eq_some_getLast hne
  obtain ⟨c, rest, hcons⟩ := List.exists_cons_of_ne_nil (h.labels_ne_nil _ (List.getLast_mem hne))
  rw [hcons] at hlast
  have hdigit : c.isDigit = false := Text.not_isDigit_of_isAlpha (h.letter _ hlast c rfl)
  rw [endsInNumber_eq (hparts ▸ hlast), v4Number?_of_not_digit hdigit]
  simp [hdigit]

theorem read (h : IsPlainName s) : readHost s = .ok (.name (String.ofList s)) := by
  have hne : s ≠ [] := by
    rintro rfl
    exact absurd h.name.not_empty (by decide)
  rw [readHost_of_nameChars h.chars hne h.plain, h.not_endsInNumber]
  rfl

end IsPlainName

/-- A host is read as what it is the text of. -/
theorem IsHost.read {host : Host} (h : IsHost s host) : readHost s = .ok host := by
  cases h with
  | octets h =>
    obtain ⟨h4, hlt, htext⟩ := IpAddress.parse?_eq_v4_iff.mp h
    rw [← String.toList_ofList (l := s), htext]
    exact readHost_dotted h4 hlt
  | groups h => exact readHost_bracketed h
  | name h => exact h.read

end Url

end ClusterConfig
