import Mathlib
import ClusterConfig.Proofs.Network.DnsNames
import ClusterConfig.Proofs.Network.Octets
import ClusterConfig.Proofs.Text.Parts
import ClusterConfig.Validation.Cluster

/-!
# Ranges and addresses that are accepted

The first slash of a range stands behind the address, as no address has one, and the rest is a number
that may have a plus sign in front. What is no address may still be a name: four runs of digits with
dots between them are one, unless a run or the whole is too long for a name.
-/

set_option autoImplicit false

namespace ClusterConfig

namespace Network

open IpAddress (isAddressChar parse? dotted)
open Text (Spells)

variable {text : String} {address : IpAddress} {bits : ℕ} {sign : List Char} {parts : List (List Char)}

/-! ## Ranges -/

/-- The text of an address, a slash, a sign and the digits of a number of bits that the address has. -/
inductive IsRange (sign : List Char) : List Char → IpAddress → ℕ → Prop
  | intro {above digits : List Char} {address : IpAddress} {bits : ℕ}
    (ha : parse? (String.ofList above) = some address) (hd : Spells digits bits)
    (hb : bits ≤ address.width) : IsRange sign (above ++ '/' :: (sign ++ digits)) address bits

theorem ipAddress_eq_ok : ipAddress text = .ok address ↔ parse? text = some address := by
  rw [ipAddress]
  cases parse? text <;> simp

theorem not_mem_address {above : List Char} (h : parse? (String.ofList above) = some address)
    {mark : Char} (hmark : isAddressChar mark = false) : mark ∉ above := fun hm =>
  absurd (IpAddress.chars_of_parse? h mark (by simpa using hm)) (by simp [hmark])

theorem splitFirst?_range (h : IsRange sign text.toList address bits) :
    ∃ above digits, Text.splitFirst? '/' text.toList = some (above, sign ++ digits) ∧
      parse? (String.ofList above) = some address ∧ Spells digits bits ∧ bits ≤ address.width := by
  generalize text.toList = s at h
  cases h with
  | intro ha hd hb =>
    exact ⟨_, _, Text.splitFirst?_eq_some_iff.mpr ⟨rfl, not_mem_address ha (by decide)⟩, ha, hd, hb⟩

theorem width_le : address.width ≤ 255 := by
  cases address <;> simp [IpAddress.width]

theorem range_eq_ok : range text = .ok (address, bits) ↔
    ∃ above length, Text.splitFirst? '/' text.toList = some (above, length) ∧
      parse? (String.ofList above) = some address ∧
      Text.unsigned? 255 length = some bits ∧ bits ≤ address.width := by
  rw [range]
  cases hsplit : Text.splitFirst? '/' text.toList with
  | none => simp [bind, Except.bind]
  | some split =>
    obtain ⟨above, length⟩ := split
    cases haddress : ipAddress (String.ofList above) with
    | error e =>
      have hnone : parse? (String.ofList above) ≠ some address := fun h => by
        rw [ipAddress_eq_ok.mpr h] at haddress
        cases haddress
      simp [bind, Except.bind, haddress, hnone]
    | ok found =>
      have hfound : parse? (String.ofList above) = some address ↔ found = address := by
        rw [ipAddress_eq_ok.mp haddress, Option.some.injEq]
      simp only [Option.elim_some, bind, Except.bind, haddress, Option.some.injEq, Prod.mk.injEq,
        ↓existsAndEq, and_true, hfound]
      split
      · rename_i read hread
        rw [Option.filter_eq_some_iff] at hread
        simp only [hread.1, Except.ok.injEq, Prod.mk.injEq, Option.some.injEq]
        grind
      · rename_i hread
        rw [Option.filter_eq_none_iff] at hread
        grind

theorem range_eq_ok_iff : range text = .ok (address, bits) ↔
    IsRange [] text.toList address bits ∨ IsRange ['+'] text.toList address bits := by
  rw [range_eq_ok]
  constructor
  · rintro ⟨above, length, hsplit, ha, hlength, hb⟩
    rw [(Text.splitFirst?_eq_some_iff.mp hsplit).1]
    obtain ⟨hd | ⟨digits, rfl, hd⟩, -⟩ := Text.unsigned?_eq_some_iff.mp hlength
    · exact .inl (.intro ha hd hb)
    · exact .inr (.intro ha hd hb)
  · rintro (h | h)
    · obtain ⟨above, digits, hsplit, ha, hd, hb⟩ := splitFirst?_range h
      have hlimit := hb.trans width_le
      exact ⟨above, digits, hsplit, ha, Text.unsigned?_eq_some_iff.mpr ⟨.inl hd, hlimit⟩, hb⟩
    · obtain ⟨above, digits, hsplit, ha, hd, hb⟩ := splitFirst?_range h
      have hlimit := hb.trans width_le
      exact ⟨above, _, hsplit, ha,
        Text.unsigned?_eq_some_iff.mpr ⟨.inr ⟨digits, rfl, hd⟩, hlimit⟩, hb⟩

/-- What stands in a range beside its slash and its sign. -/
theorem IsRange.count {s : List Char} (h : IsRange sign s address bits) (mark : Char)
    (hmark : isAddressChar mark = false) : s.count mark = ['/'].count mark + sign.count mark := by
  have hdigit : mark.isDigit = false := by
    by_contra hdigit
    simp [isAddressChar, Yaml.hexValue?_digit (by simpa using hdigit)] at hmark
  cases h with
  | intro ha hd hb =>
    rw [← List.singleton_append, List.count_append, List.count_append, List.count_append,
      List.count_eq_zero.mpr (not_mem_address ha hmark), List.count_eq_zero.mpr (hd.no_mark hdigit)]
    omega

theorem isBlank_of_isAddressChar {c : Char} (h : isAddressChar c = true) :
    Text.isBlank c = false := by
  have hcode := IpAddress.code_of_isAddressChar h
  simp [Text.isBlank]
  omega

/-- What is accepted as a range is written as one, or with a plus sign in front of the number of
bits; no other sign, no blank and no second slash is accepted. So a text is written as a range exactly
if it is accepted and has no plus sign. -/
theorem unsigned_range_iff (text : String) (address : IpAddress) (bits : ℕ) :
    (range text = .ok (address, bits) ↔
      IsRange [] text.toList address bits ∨ IsRange ['+'] text.toList address bits) ∧
    (IsRange [] text.toList address bits ↔
      range text = .ok (address, bits) ∧ '+' ∉ text.toList) ∧
    (range text = .ok (address, bits) → text.toList.count '/' = 1 ∧ '-' ∉ text.toList ∧
      ∀ c ∈ text.toList, Text.isBlank c = false) := by
  refine ⟨range_eq_ok_iff, ?_, fun h => ?_⟩
  · rw [range_eq_ok_iff]
    constructor
    · intro h
      exact ⟨.inl h, List.count_eq_zero.mp (h.count '+' (by decide))⟩
    · rintro ⟨h | h, hplus⟩
      · exact h
      · rw [← List.count_eq_zero, h.count '+' (by decide)] at hplus
        cases hplus
  · obtain ⟨sign, hsign, h⟩ : ∃ sign, (sign = [] ∨ sign = ['+']) ∧
        IsRange sign text.toList address bits :=
      (range_eq_ok_iff.mp h).elim (fun h => ⟨_, .inl rfl, h⟩) fun h => ⟨_, .inr rfl, h⟩
    have hfree {c : Char} (hchar : isAddressChar c = false) (hslash : c ≠ '/') (hplus : c ≠ '+') :
        c ∉ text.toList := by
      rw [← List.count_eq_zero, h.count c hchar]
      obtain rfl | rfl := hsign <;> simp [hslash.symm, hplus.symm]
    refine ⟨?_, hfree (by decide) (by decide) (by decide), fun c hc => ?_⟩
    · rw [h.count '/' (by decide)]
      obtain rfl | rfl := hsign <;> decide
    · by_contra hblank
      refine hfree ?_ ?_ ?_ hc
      · by_contra hchar
        exact hblank (isBlank_of_isAddressChar (by simpa using hchar))
      · rintro rfl
        exact hblank (by decide)
      · rintro rfl
        exact hblank (by decide)

/-- Zeros in front of the number of bits change nothing. -/
theorem padded_range_accepted :
    range "fd00:10:244::/000000000000000000056" =
        .ok (.v6 [0xfd00, 0x10, 0x244, 0, 0, 0, 0, 0], 56) ∧
      "fd00:10:244::/000000000000000000056".toList.count '/' = 1 ∧
      IsRange [] "fd00:10:244::/000000000000000000056".toList
        (.v6 [0xfd00, 0x10, 0x244, 0, 0, 0, 0, 0]) 56 := by
  have h : range "fd00:10:244::/000000000000000000056" =
      .ok (.v6 [0xfd00, 0x10, 0x244, 0, 0, 0, 0, 0], 56) := by decide +kernel
  obtain ⟨-, hunsigned, hchars⟩ := unsigned_range_iff _ _ _
  exact ⟨h, (hchars h).1, hunsigned.mpr ⟨h, by decide⟩⟩

/-- A plus sign is accepted, although no range is written with one. -/
theorem signed_range_accepted :
    range "10.0.0.0/+16" = .ok (.v4 [10, 0, 0, 0], 16) ∧
      ∀ address bits, ¬IsRange [] "10.0.0.0/+16".toList address bits := by
  refine ⟨by decide +kernel, fun address bits h => ?_⟩
  exact absurd (h.count '+' (by decide)) (by decide)

/-! ## Addresses -/

/-- Four runs of decimal digits. -/
structure IsQuad (parts : List (List Char)) : Prop where
  four : parts.length = 4
  not_empty : ∀ part ∈ parts, part ≠ []
  digits : ∀ part ∈ parts, part.all Char.isDigit = true

/-- The runs with dots between them. -/
def quadText (parts : List (List Char)) : String := String.ofList (['.'].intercalate parts)

/-- The digits of a number up to 255, without a zero in front. -/
def IsOctet (part : List Char) : Prop := ∃ n < 256, part = Nat.toDigits 10 n

/-- Runs that a name may have as its labels. -/
structure IsShort (parts : List (List Char)) : Prop where
  labels : ∀ part ∈ parts, part.length ≤ 63
  whole : (quadText parts).length ≤ 253

namespace IsQuad

theorem isDigit (h : IsQuad parts) : ∀ part ∈ parts, ∀ c ∈ part, c.isDigit = true :=
  fun part hp => List.all_eq_true.mp (h.digits part hp)

theorem not_mem (h : IsQuad parts) {mark : Char} (hmark : mark.isDigit = false) :
    ∀ part ∈ parts, mark ∉ part := fun part hp hm =>
  Bool.false_ne_true (hmark.symm.trans (h.isDigit part hp mark hm))

theorem splitOn (h : IsQuad parts) : (quadText parts).toList.splitOn '.' = parts := by
  rw [quadText, String.toList_ofList]
  exact List.splitOn_intercalate '.' (h.not_mem (by decide)) fun hnil => by simpa [hnil] using h.four

theorem hasLabels (h : IsQuad parts) :
    DnsName.HasLabels Char.isAlphanum (quadText parts).toList := by
  have hrun : ∀ part ∈ parts, ∀ c ∈ part, c.isAlphanum = true := fun part hp c hc => by
    simp [Char.isAlphanum, h.isDigit part hp c hc]
  intro part hp
  rw [h.splitOn] at hp
  exact ⟨h.not_empty part hp, fun c hc => by simp [DnsName.isLabelChar, hrun part hp c hc],
    fun c hc => hrun part hp c (List.mem_of_head? hc), fun c hc => hrun part hp c (List.mem_of_getLast? hc)⟩

theorem chars (h : IsQuad parts) :
    ∀ c ∈ (quadText parts).toList, c.isAlphanum = true ∨ c = '-' ∨ c = '.' :=
  DnsName.chars_of_isName ((DnsName.isName_iff_hasLabels (by decide)).mpr h.hasLabels)

theorem utf8ByteSize (h : IsQuad parts) : (quadText parts).utf8ByteSize = (quadText parts).length := by
  rw [← Text.byteCount_toList, ← String.length_toList]
  refine Text.byteCount_eq_length fun c hc => ?_
  obtain hc | rfl | rfl := h.chars c hc
  · exact Text.ascii_of_isAlphanum hc
  all_goals decide

/-- Four runs of digits are a name if they are short enough. -/
theorem isName_iff (h : IsQuad parts) :
    DnsName.problems DnsName.domain (quadText parts) = [] ↔ IsShort parts := by
  have hname : DnsName.domain.name (quadText parts).toList = (quadText parts).toList :=
    DnsName.withoutLastDot_eq_self (by decide)
      ((DnsName.isName_iff_hasLabels (by decide)).mpr h.hasLabels)
  rw [DnsName.problems_eq_nil _ fun c => id, hname]
  constructor
  · rintro ⟨-, hshort, hlabels⟩
    rw [h.splitOn] at hlabels
    exact ⟨fun part hp => (hlabels part hp).2, h.utf8ByteSize ▸ hshort⟩
  · rintro ⟨hlabels, hshort⟩
    refine ⟨?_, h.utf8ByteSize.symm ▸ hshort, fun label hl => ⟨h.hasLabels label hl, ?_⟩⟩
    · rw [h.utf8ByteSize, ← String.length_toList]
      exact List.length_pos_of_ne_nil (DnsName.ne_nil_of_isName
        ((DnsName.isName_iff_hasLabels (by decide)).mpr h.hasLabels))
    · rw [h.splitOn] at hl
      exact hlabels label hl

/-- Four runs of digits are an address if each writes an octet. -/
theorem isAddress_iff (h : IsQuad parts) :
    (∃ address, parse? (quadText parts) = some address) ↔ ∀ part ∈ parts, IsOctet part := by
  constructor
  · rintro ⟨address, hparse⟩
    have hcolon : ':' ∉ (quadText parts).toList := fun hm =>
      absurd (h.chars ':' hm) (by decide)
    obtain ⟨octets, rfl, -⟩ := IpAddress.parse?_dotted hcolon hparse
    obtain ⟨h4, hlt, htext⟩ := IpAddress.parse?_eq_v4_iff.mp hparse
    have hparts : parts = octets.map (Nat.toDigits 10) := by
      rw [← h.splitOn, htext, IpAddress.splitOn_dotted]
      rintro rfl
      cases h4
    rw [hparts, List.forall_mem_map]
    exact fun n hn => ⟨n, hlt n hn, rfl⟩
  · intro hoctets
    let octets := parts.map fun part => Nat.ofDigitChars 10 part 0
    have hpart : ∀ part ∈ parts, Nat.ofDigitChars 10 part 0 < 256 ∧
        Nat.toDigits 10 (Nat.ofDigitChars 10 part 0) = part := by
      intro part hp
      obtain ⟨n, hn, rfl⟩ := hoctets part hp
      rw [Nat.ofDigitChars_ten_toDigits]
      exact ⟨hn, rfl⟩
    refine ⟨.v4 octets, IpAddress.parse?_eq_v4_iff.mpr ⟨?_, ?_, String.toList_inj.mp ?_⟩⟩
    · rw [List.length_map, h.four]
    · exact List.forall_mem_map.mpr fun part hp => (hpart part hp).1
    · rw [IpAddress.toList_dotted_intercalate, quadText, String.toList_ofList, List.map_map]
      have hback : parts.map (Nat.toDigits 10 ∘ fun part => Nat.ofDigitChars 10 part 0) =
          parts.map id := List.map_congr_left fun part hp => (hpart part hp).2
      rw [hback, List.map_id]

theorem isShort_of_octets (h : IsQuad parts) (ho : ∀ part ∈ parts, IsOctet part) :
    IsShort parts := by
  have hlength : ∀ part ∈ parts, part.length ≤ 3 := by
    intro part hp
    obtain ⟨n, hn, rfl⟩ := ho part hp
    exact (Nat.length_toDigits_le_iff (by decide) (by decide)).mpr (hn.trans (by decide))
  refine ⟨fun part hp => (hlength part hp).trans (by decide), ?_⟩
  match parts, h.four with
  | [a, b, c, d], _ =>
    simp only [List.forall_mem_cons] at hlength
    simp only [quadText, String.length_ofList, List.intercalate, List.intersperse,
      List.flatten_cons, List.flatten_nil, List.length_append, List.length_cons, List.length_nil]
    omega

theorem checkAddress_iff (h : IsQuad parts) :
    checkAddress (quadText parts) = .ok () ↔ IsShort parts := by
  have hok : checkAddress (quadText parts) = .ok () ↔
      (∃ address, parse? (quadText parts) = some address) ∨
        DnsName.problems DnsName.domain (quadText parts) = [] := by
    rw [checkAddress, ← Option.isSome_iff_exists, ← List.isEmpty_iff, ← Bool.or_eq_true]
    split <;> simp_all
  rw [hok, h.isAddress_iff, h.isName_iff]
  exact or_iff_right_of_imp h.isShort_of_octets

end IsQuad

end Network

namespace Validation

variable {place : Place} {what : String} {addresses : List String}

open Network (checkAddress)

/-- Of some texts an address is reported exactly if one of them is refused. -/
theorem refused_reported_iff {α : Type} {items : List α} (place : α → Place) (text : α → String) :
    (∃ issue ∈ items.flatMap fun item => issueOf .invalidAddress (place item) what (text item)
        Network.AddressError.message (checkAddress (text item)), issue.kind = .invalidAddress) ↔
      ∃ item ∈ items, checkAddress (text item) ≠ .ok () := by
  have hone (item : α) : (∃ issue ∈ issueOf .invalidAddress (place item) what (text item)
      Network.AddressError.message (checkAddress (text item)), issue.kind = .invalidAddress) ↔
        checkAddress (text item) ≠ .ok () := by
    cases checkAddress (text item) <;> simp [issueOf]
  constructor
  · rintro ⟨issue, hm, hkind⟩
    obtain ⟨item, hi, hissue⟩ := List.mem_flatMap.mp hm
    exact ⟨item, hi, (hone item).mp ⟨issue, hissue, hkind⟩⟩
  · rintro ⟨item, hi, hrefused⟩
    obtain ⟨issue, hissue, hkind⟩ := (hone item).mpr hrefused
    exact ⟨issue, List.mem_flatMap.mpr ⟨item, hi, hissue⟩, hkind⟩

theorem nodeAddress_reported_iff :
    (∃ issue ∈ nodeAddressIssues place addresses, issue.kind = .invalidAddress) ↔
      ∃ address ∈ addresses, checkAddress address ≠ .ok () := by
  rw [nodeAddressIssues]
  split
  · rename_i hempty
    simp [List.isEmpty_iff.mp hempty]
  · exact refused_reported_iff (fun _ => place) id

theorem address_reported_iff :
    (∃ issue ∈ addressIssues place what addresses, issue.kind = .invalidAddress) ↔
      ∃ address ∈ addresses, checkAddress address ≠ .ok () := by
  refine (refused_reported_iff (fun item => place.index item.2) Prod.fst).trans ?_
  constructor
  · rintro ⟨⟨address, index⟩, hm, hrefused⟩
    exact ⟨address, List.fst_mem_of_mem_zipIdx hm, hrefused⟩
  · rintro ⟨address, hm, hrefused⟩
    obtain ⟨index, hindex⟩ := List.mem_iff_getElem?.mp hm
    exact ⟨(address, index), List.mem_zipIdx_iff_getElem?.mpr hindex, hrefused⟩

end Validation

namespace Network

open Validation (Place nodeAddressIssues addressIssues)

/-- Four runs of digits with dots between them are accepted as an address exactly if they are short
enough for a name, although they are no address unless each run writes an octet. So runs that write no
octets are refused, and among other addresses reported, exactly if they are too long for a name. -/
theorem mistyped_address_refused_iff (parts : List (List Char)) (h : IsQuad parts) :
    (checkAddress (quadText parts) = .ok () ↔ IsShort parts) ∧
    ((∃ address, ipAddress (quadText parts) = .ok address) ↔ ∀ part ∈ parts, IsOctet part) ∧
    ((checkAddress (quadText parts) = .ok () ↔
        ∃ address, ipAddress (quadText parts) = .ok address) ↔
      (∀ part ∈ parts, IsOctet part) ∨ ¬IsShort parts) ∧
    ∀ (place : Place) (what : String) (addresses : List String), quadText parts ∈ addresses →
      (∀ other ∈ addresses, other ≠ quadText parts → checkAddress other = .ok ()) →
      ((∃ issue ∈ nodeAddressIssues place addresses, issue.kind = .invalidAddress) ↔
        ¬IsShort parts) ∧
      ((∃ issue ∈ addressIssues place what addresses, issue.kind = .invalidAddress) ↔
        ¬IsShort parts) := by
  have haddress : (∃ address, ipAddress (quadText parts) = .ok address) ↔
      ∀ part ∈ parts, IsOctet part := by
    simp only [ipAddress_eq_ok]
    exact h.isAddress_iff
  refine ⟨h.checkAddress_iff, haddress, ?_, fun place what addresses hm hothers => ?_⟩
  · have hshort := h.isShort_of_octets
    rw [h.checkAddress_iff, haddress]
    tauto
  · have hrefused : (∃ address ∈ addresses, checkAddress address ≠ .ok ()) ↔ ¬IsShort parts := by
      rw [← h.checkAddress_iff]
      refine ⟨fun ⟨address, ha, hrefused⟩ hok => hrefused ?_, fun hlong => ⟨_, hm, hlong⟩⟩
      by_cases hsame : address = quadText parts
      · rwa [hsame]
      · exact hothers address ha hsame
    exact ⟨Validation.nodeAddress_reported_iff.trans hrefused,
      Validation.address_reported_iff.trans hrefused⟩

/-- A run of 64 digits is too long for a label. -/
theorem long_octet_refused :
    let parts := [['1', '0'], ['0'], ['0'], List.replicate 64 '1']
    checkAddress (quadText parts) ≠ .ok () ∧
    (∃ issue ∈ nodeAddressIssues .root ["node-1", quadText parts], issue.kind = .invalidAddress) := by
  intro parts
  have h : IsQuad parts := ⟨by decide, by decide, by decide⟩
  have hlong : ¬IsShort parts := fun hshort =>
    absurd (hshort.labels (List.replicate 64 '1') (by decide)) (by decide)
  have hothers : ∀ other ∈ ["node-1", quadText parts], other ≠ quadText parts →
      checkAddress other = .ok () := by
    intro other hm hne
    obtain rfl | hm := List.mem_cons.mp hm
    · decide +kernel
    · exact absurd (List.mem_singleton.mp hm) hne
  obtain ⟨haccepted, -, -, hreported⟩ := mistyped_address_refused_iff parts h
  exact ⟨fun hok => hlong (haccepted.mp hok),
    (hreported .root "certificate SAN" _ (by simp) hothers).1.mpr hlong⟩

/-- An octet out of range is taken for the last label of a name. -/
theorem octet_out_of_range_accepted :
    IsQuad [['1', '0'], ['0'], ['0'], ['2', '5', '6']] ∧
    quadText [['1', '0'], ['0'], ['0'], ['2', '5', '6']] = "10.0.0.256" ∧
    checkAddress "10.0.0.256" = .ok () ∧ ipAddress "10.0.0.256" = .error .notAnIpAddress ∧
    nodeAddressIssues .root ["10.0.0.256"] = [] ∧
    addressIssues .root "certificate SAN" ["10.0.0.256"] = [] := by
  have hok : checkAddress "10.0.0.256" = .ok () := by decide +kernel
  refine ⟨⟨by decide, by decide, by decide⟩, by decide, hok, by decide +kernel, ?_, ?_⟩
  · simp [nodeAddressIssues, Validation.issueOf, hok]
  · simp [addressIssues, Validation.onItems, Validation.issueOf, hok]

end Network

end ClusterConfig
