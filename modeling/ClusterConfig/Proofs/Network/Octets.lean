import Mathlib
import ClusterConfig.Network.Address
import ClusterConfig.Proofs.Documents.Places
import ClusterConfig.Proofs.Yaml.Numerals

/-!
# Texts of addresses

An octet has no zero in front, so four octets have one text only. Eight groups have a colon in their
text: a text without one that spells an address is the text of that address.
-/

set_option autoImplicit false

namespace ClusterConfig.IpAddress

variable {s rest : List Char} {most n limit : Nat} {first : Bool} {octets : List Nat}

/-! ## Characters -/

def isAddressChar (c : Char) : Bool := (Json.hexValue? c).isSome || c = '.' || c = ':'

/-- Dots, digits, colons and the first six letters in both cases. -/
theorem code_of_isAddressChar {c : Char} (h : isAddressChar c = true) : c.toNat = 46 ∨
    (48 ≤ c.toNat ∧ c.toNat ≤ 58) ∨ (65 ≤ c.toNat ∧ c.toNat ≤ 70) ∨
      (97 ≤ c.toNat ∧ c.toNat ≤ 102) := by
  have hrange (first last : Char) (h : (first ≤ c && c ≤ last) = true) :
      first.toNat ≤ c.toNat ∧ c.toNat ≤ last.toNat := by
    rw [Bool.and_eq_true, decide_eq_true_eq, decide_eq_true_eq] at h
    exact ⟨Char.le_def.mp h.1, Char.le_def.mp h.2⟩
  have hnine : '9'.toNat = 57 := rfl
  rw [isAddressChar, Json.hexValue?] at h
  split at h
  · rename_i hdigit
    have := hrange '0' '9' hdigit
    exact .inr (.inl ⟨this.1, by omega⟩)
  · split at h
    · rename_i hlower
      exact .inr (.inr (.inr (hrange 'a' 'f' hlower)))
    · split at h
      · rename_i hupper
        exact .inr (.inr (.inl (hrange 'A' 'F' hupper)))
      · obtain rfl | rfl : c = '.' ∨ c = ':' := by simpa using h
        · exact .inl rfl
        · exact .inr (.inl ⟨by decide, by decide⟩)

/-- Only characters of addresses stand in front of the rest. -/
def Takes (s rest : List Char) : Prop :=
  ∃ part, s = part ++ rest ∧ ∀ c ∈ part, isAddressChar c = true

theorem Takes.refl (s : List Char) : Takes s s := ⟨[], rfl, by simp⟩

theorem Takes.trans {t : List Char} (h : Takes s t) (ht : Takes t rest) : Takes s rest := by
  obtain ⟨part, rfl, hpart⟩ := h
  obtain ⟨more, rfl, hmore⟩ := ht
  exact ⟨part ++ more, (List.append_assoc _ _ _).symm, List.forall_mem_append.mpr ⟨hpart, hmore⟩⟩

theorem Takes.cons {c : Char} (hc : isAddressChar c = true) (h : Takes s rest) :
    Takes (c :: s) rest :=
  Takes.trans ⟨[c], rfl, by simpa using hc⟩ h

theorem Takes.suffix (h : Takes s rest) : rest <:+ s := by
  obtain ⟨part, rfl, -⟩ := h
  exact List.suffix_append _ _

/-! ## Numbers -/

/-- The decimal digits are the digits that count in base ten. -/
theorem decimalDigit_eq (c : Char) :
    (Json.hexValue? c).filter (· < 10) =
      if c.isDigit then some (c.toNat - '0'.toNat) else none := by
  by_cases hc : c.isDigit = true
  · have hlt := (Json.digitChar_of_isDigit hc).1
    rw [Yaml.hexValue?_digit hc, if_pos hc]
    simpa [Option.filter] using hlt
  · rw [if_neg hc, Json.hexValue?]
    have hrange : ¬('0' ≤ c ∧ c ≤ '9') := fun h => hc (Char.isDigit_iff_toNat.mpr h)
    split
    · rename_i h
      exact absurd (by simpa using h) hrange
    · split
      · simp [Option.filter]
      · split <;> simp [Option.filter]

theorem readNumber_takes {radix : Nat} {zeros : Bool}
    (h : readNumber radix most zeros s = some (n, rest)) : Takes s rest := by
  simp only [readNumber] at h
  split at h
  · cases h
  · split at h
    · cases h
    · obtain ⟨-, rfl⟩ := Prod.mk.inj (Option.some.inj h)
      rw [Yaml.Spot.drop_length_takeWhile]
      refine ⟨_, List.takeWhile_append_dropWhile.symm, fun c hc => ?_⟩
      have hsome : ((Json.hexValue? c).filter (· < radix)).isSome = true :=
        List.mem_takeWhile_imp (p := fun c => ((Json.hexValue? c).filter (· < radix)).isSome) hc
      obtain ⟨value, hvalue⟩ := Option.isSome_iff_exists.mp hsome
      simp [isAddressChar, (Option.filter_eq_some_iff.mp hvalue).1]

/-- In base ten the leading digits are read, unless a zero stands in front of more of them. -/
theorem readNumber_ten (most : Nat) (s : List Char) : readNumber 10 most false s =
    if (s.takeWhile Char.isDigit).isEmpty || most < (s.takeWhile Char.isDigit).length then none
    else if 1 < (s.takeWhile Char.isDigit).length && (s.takeWhile Char.isDigit).head? = some '0' then
      none
    else some (Json.digitsValue (s.takeWhile Char.isDigit), s.dropWhile Char.isDigit) := by
  have hdigit (c : Char) : ((Json.hexValue? c).filter (· < 10)).isSome = c.isDigit := by
    rw [decimalDigit_eq]
    cases c.isDigit <;> rfl
  have hvalue : (s.takeWhile Char.isDigit).foldl
      (fun acc c => acc * 10 + ((Json.hexValue? c).filter (· < 10)).getD 0) 0 =
        Json.digitsValue (s.takeWhile Char.isDigit) := by
    rw [Json.digitsValue]
    refine List.foldl_ext _ _ _ fun acc c hc => ?_
    rw [decimalDigit_eq, if_pos (List.mem_takeWhile_imp hc), Option.getD_some]
  simp only [readNumber, hdigit, hvalue, Yaml.Spot.drop_length_takeWhile, Bool.not_false,
    Bool.true_and]

/-- A number without zeros in front is spelled in one way. -/
theorem readNumber_spelling (h : readNumber 10 most false s = some (n, rest)) :
    s = (toString n).toList ++ rest := by
  have hd : Yaml.Digits (s.takeWhile Char.isDigit) := fun c hc => List.mem_takeWhile_imp hc
  rw [readNumber_ten] at h
  split at h
  · cases h
  · rename_i hsome
    split at h
    · cases h
    · rename_i hlead
      obtain ⟨rfl, rfl⟩ := Prod.mk.inj (Option.some.inj h)
      have hspelled := Json.toDigits_digitsValue hd
        (fun hnil => hsome (by rw [hnil]; rfl)) (fun hlong hzero => hlead (by simp [hlong, hzero]))
      rw [Nat.toString_eq_repr, Nat.toList_repr, hspelled, List.takeWhile_append_dropWhile]

/-- No digit starts the text. -/
def NoDigit (s : List Char) : Prop := ∀ c ∈ s.head?, c.isDigit = false

theorem NoDigit.split (h : NoDigit rest) {digits : List Char} (hd : Yaml.Digits digits) :
    (digits ++ rest).takeWhile Char.isDigit = digits ∧
      (digits ++ rest).dropWhile Char.isDigit = rest := by
  rw [List.takeWhile_append_of_pos hd, List.dropWhile_append_of_pos hd]
  cases rest with
  | nil => simp
  | cons c rest => simp [h c rfl]

theorem readNumber_toDigits (hn : n < 10 ^ most) (hmost : 0 < most) (h : NoDigit rest) :
    readNumber 10 most false (Nat.toDigits 10 n ++ rest) = some (n, rest) := by
  obtain ⟨htake, hdrop⟩ := h.split (Yaml.digits_toDigits n)
  have hlength := (Nat.length_toDigits_le_iff (by decide) hmost).mpr hn
  have hlead : ¬(1 < (Nat.toDigits 10 n).length ∧ (Nat.toDigits 10 n).head? = some '0') := by
    rintro ⟨hlong, hzero⟩
    obtain rfl | hpos := Nat.eq_zero_or_pos n
    · exact absurd hlong (by decide)
    · exact Yaml.toDigits_head n hpos hzero
  rw [readNumber_ten, htake, hdrop, Yaml.digitsValue_toDigits]
  simp [Nat.toDigits_ne_nil, hlength, hlead]

/-! ## Octets -/

theorem readOctet_spelling (h : readOctet s = some (n, rest)) : s = (toString n).toList ++ rest :=
  readNumber_spelling (Option.filter_eq_some_iff.mp h).1

/-- The characters of octets that follow another one. -/
def furtherOctets (octets : List Nat) : List Char :=
  octets.flatMap fun octet => '.' :: (toString octet).toList

theorem toList_dotted (octet : Nat) (octets : List Nat) :
    (dotted (octet :: octets)).toList = (toString octet).toList ++ furtherOctets octets := by
  induction octets generalizing octet with
  | nil => simp [dotted, furtherOctets]
  | cons next octets ih =>
    have hsplit : dotted (octet :: next :: octets) =
        toString octet ++ "." ++ dotted (next :: octets) := String.intercalate_cons_cons
    rw [hsplit, String.toList_append, String.toList_append, ih]
    simp [furtherOctets]

theorem toList_dotted_intercalate (octets : List Nat) :
    (dotted octets).toList = ['.'].intercalate (octets.map (Nat.toDigits 10)) := by
  rw [dotted, String.toList_intercalate, List.map_map]
  refine congrArg₂ _ rfl (List.map_congr_left fun n _ => ?_)
  rw [Function.comp_apply, Nat.toString_eq_repr, Nat.toList_repr]

/-- What stands between the dots are the digits of the octets. -/
theorem splitOn_dotted (hne : octets ≠ []) :
    (dotted octets).toList.splitOn '.' = octets.map (Nat.toDigits 10) := by
  rw [toList_dotted_intercalate]
  refine List.splitOn_intercalate '.' ?_ (mt List.map_eq_nil_iff.mp hne)
  intro part hp hdot
  obtain ⟨n, -, rfl⟩ := List.mem_map.mp hp
  exact absurd (Yaml.digits_toDigits n '.' hdot) (by decide)

/-- The text of octets has digits and dots only. -/
theorem chars_dotted (octets : List Nat) :
    ∀ c ∈ (dotted octets).toList, c.isDigit = true ∨ c = '.' := by
  have hnumber (n : Nat) : ∀ c ∈ (toString n).toList, c.isDigit = true ∨ c = '.' := by
    rw [Nat.toString_eq_repr, Nat.toList_repr]
    exact fun c hc => .inl (Yaml.digits_toDigits n c hc)
  cases octets with
  | nil => simp [dotted]
  | cons octet octets =>
    rw [toList_dotted, List.forall_mem_append]
    refine ⟨hnumber octet, fun c hc => ?_⟩
    obtain ⟨next, -, hc⟩ := List.mem_flatMap.mp hc
    obtain rfl | hc := List.mem_cons.mp hc
    · exact .inr rfl
    · exact hnumber next c hc

/-- Octets are read one after another, each behind its mark. -/
theorem readOctets_succ {count : Nat} (h : readOctets (count + 1) first s = some (octets, rest)) :
    ∃ start octet between more, afterMark? '.' first s = some start ∧
      readOctet start = some (octet, between) ∧
      readOctets count false between = some (more, rest) ∧ octets = octet :: more := by
  simp only [readOctets, Option.bind_eq_bind, Option.bind_eq_some_iff] at h
  obtain ⟨start, hstart, ⟨octet, between⟩, hoctet, ⟨more, last⟩, hmore, hsame⟩ := h
  obtain ⟨rfl, rfl⟩ := Prod.mk.inj (Option.some.inj hsame)
  exact ⟨start, octet, between, more, hstart, hoctet, hmore, rfl⟩

theorem afterMark?_false {mark : Char} {start : List Char}
    (h : afterMark? mark false s = some start) : s = mark :: start := by
  cases s with
  | nil => cases h
  | cons c s =>
    by_cases hc : c = mark
    · simpa [afterMark?, hc] using h
    · simp [afterMark?, hc] at h

theorem afterMark?_takes {mark : Char} {start : List Char} (hmark : isAddressChar mark = true)
    (h : afterMark? mark first s = some start) : Takes s start := by
  cases first with
  | true =>
    obtain rfl : s = start := Option.some.inj h
    exact .refl s
  | false =>
    rw [afterMark?_false h]
    exact (Takes.refl start).cons hmark

theorem readOctets_takes {count : Nat} (h : readOctets count first s = some (octets, rest)) :
    Takes s rest := by
  induction count generalizing s first octets with
  | zero =>
    obtain ⟨-, rfl⟩ := Prod.mk.inj (Option.some.inj h)
    exact .refl s
  | succ count ih =>
    obtain ⟨start, octet, between, more, hstart, hoctet, hmore, -⟩ := readOctets_succ h
    exact (afterMark?_takes (by decide) hstart).trans
      ((readNumber_takes (Option.filter_eq_some_iff.mp hoctet).1).trans (ih hmore))

theorem readOctets_spelling {count : Nat} (h : readOctets count false s = some (octets, rest)) :
    s = furtherOctets octets ++ rest := by
  induction count generalizing s octets with
  | zero =>
    obtain ⟨rfl, rfl⟩ := Prod.mk.inj (Option.some.inj h)
    rfl
  | succ count ih =>
    obtain ⟨start, octet, between, more, hstart, hoctet, hmore, rfl⟩ := readOctets_succ h
    rw [afterMark?_false hstart, readOctet_spelling hoctet, ih hmore]
    simp [furtherOctets]

theorem readV4_spelling (h : readV4 s = some (octets, rest)) :
    s = (dotted octets).toList ++ rest := by
  obtain ⟨start, octet, between, more, hstart, hoctet, hmore, rfl⟩ := readOctets_succ h
  obtain rfl : s = start := Option.some.inj hstart
  rw [toList_dotted, readOctet_spelling hoctet, readOctets_spelling hmore, List.append_assoc]

theorem readOctets_bounds {count : Nat} (h : readOctets count first s = some (octets, rest)) :
    octets.length = count ∧ ∀ octet ∈ octets, octet < 256 := by
  induction count generalizing s first octets with
  | zero =>
    obtain ⟨rfl, rfl⟩ := Prod.mk.inj (Option.some.inj h)
    simp
  | succ count ih =>
    obtain ⟨start, octet, between, more, hstart, hoctet, hmore, rfl⟩ := readOctets_succ h
    obtain ⟨hlength, hmore⟩ := ih hmore
    have hlt : octet < 256 := by simpa using (Option.filter_eq_some_iff.mp hoctet).2
    exact ⟨congrArg (· + 1) hlength, List.forall_mem_cons.mpr ⟨hlt, hmore⟩⟩

theorem readOctet_toString (hn : n < 256) (h : NoDigit rest) :
    readOctet ((toString n).toList ++ rest) = some (n, rest) := by
  rw [Nat.toString_eq_repr, Nat.toList_repr, readOctet,
    readNumber_toDigits (hn.trans (by decide)) (by decide) h]
  simpa [Option.filter] using hn

theorem noDigit_furtherOctets (h : NoDigit rest) : NoDigit (furtherOctets octets ++ rest) := by
  cases octets with
  | nil => exact h
  | cons octet octets => simp [NoDigit, furtherOctets]

theorem readOctets_furtherOctets (hlt : ∀ octet ∈ octets, octet < 256) (h : NoDigit rest) :
    readOctets octets.length false (furtherOctets octets ++ rest) = some (octets, rest) := by
  induction octets with
  | nil => rfl
  | cons octet octets ih =>
    obtain ⟨hoctet, hmore⟩ := List.forall_mem_cons.mp hlt
    have hsplit : furtherOctets (octet :: octets) ++ rest =
        '.' :: ((toString octet).toList ++ (furtherOctets octets ++ rest)) := by
      simp [furtherOctets]
    rw [hsplit, List.length_cons, readOctets]
    simp only [afterMark?, Bool.false_eq_true, if_false, if_true, Option.bind_eq_bind,
      Option.bind_some, readOctet_toString hoctet (noDigit_furtherOctets h), ih hmore]

theorem readV4_dotted (h4 : octets.length = 4) (hlt : ∀ octet ∈ octets, octet < 256)
    (h : NoDigit rest) : readV4 ((dotted octets).toList ++ rest) = some (octets, rest) := by
  obtain ⟨octet, more, rfl⟩ := List.exists_cons_of_length_eq_add_one h4
  obtain ⟨hoctet, hmore⟩ := List.forall_mem_cons.mp hlt
  have hread := readOctets_furtherOctets hmore h
  rw [show more.length = 3 by simpa using h4] at hread
  rw [toList_dotted, List.append_assoc, readV4, readOctets]
  simp only [afterMark?, if_true, Option.bind_eq_bind, Option.bind_some,
    readOctet_toString hoctet (noDigit_furtherOctets h), hread]

/-! ## Groups -/

theorem readGroups_false (h : ':' ∉ s) (limit : Nat) : readGroups limit false s = ([], false, s) := by
  have hmark : afterMark? ':' false s = none := by
    cases hstart : afterMark? ':' false s with
    | none => rfl
    | some start => exact absurd (afterMark?_false hstart ▸ List.mem_cons_self) h
  cases limit with
  | zero => rfl
  | succ limit => simp [readGroups, hmark]

/-- Without a colon no more than one group is read, or four octets. -/
theorem readGroups_cases (h : ':' ∉ s) (limit : Nat) :
    ∃ groups embedded rest, readGroups limit true s = (groups, embedded, rest) ∧
      groups.length ≤ 2 ∧ (embedded = false → rest <:+ s) := by
  cases limit with
  | zero => exact ⟨[], false, s, rfl, Nat.zero_le 2, fun _ => List.suffix_rfl⟩
  | succ limit =>
    have hlength (octets : List Nat) : (groupsOfOctets octets).length ≤ 2 := by
      rw [groupsOfOctets.eq_def]
      split <;> simp
    simp only [readGroups, afterMark?, if_true, Option.bind_some]
    split
    · rename_i octets rest _
      exact ⟨_, _, rest, rfl, hlength octets, fun hf => by cases hf⟩
    · split
      · rename_i group rest hgroup
        have hrest := (readNumber_takes hgroup).suffix
        rw [readGroups_false (fun hm => h (hrest.subset hm))]
        exact ⟨_, _, rest, rfl, by simp, fun _ => hrest⟩
      · exact ⟨[], false, s, rfl, Nat.zero_le 2, fun _ => List.suffix_rfl⟩

theorem readV6_colon {groups : List Nat} (h : readV6 s = some (groups, rest)) : ':' ∈ s := by
  by_contra hcolon
  obtain ⟨head, embedded, between, hread, hlength, hsuffix⟩ := readGroups_cases hcolon 8
  simp only [readV6, hread] at h
  split at h
  · omega
  · split at h
    · cases h
    · rename_i hembedded
      split at h
      · exact hcolon ((hsuffix (by simpa using hembedded)).subset List.mem_cons_self)
      · cases h

/-! ## Texts -/

theorem readGroups_takes (limit : Nat) (first : Bool) (s : List Char) :
    Takes s (readGroups limit first s).2.2 := by
  induction limit generalizing first s with
  | zero => exact .refl s
  | succ limit ih =>
    simp only [readGroups]
    split
    · rename_i octets rest hoctets
      split at hoctets
      · obtain ⟨start, hstart, hread⟩ := Option.bind_eq_some_iff.mp hoctets
        exact (afterMark?_takes (by decide) hstart).trans (readOctets_takes hread)
      · cases hoctets
    · split
      · rename_i group rest hgroup
        obtain ⟨start, hstart, hread⟩ := Option.bind_eq_some_iff.mp hgroup
        exact (afterMark?_takes (by decide) hstart).trans ((readNumber_takes hread).trans (ih _ _))
      · exact .refl s

theorem readV6_takes {groups : List Nat} (h : readV6 s = some (groups, rest)) : Takes s rest := by
  have hhead := readGroups_takes 8 true s
  simp only [readV6] at h
  split at h
  · obtain ⟨-, rfl⟩ := Prod.mk.inj (Option.some.inj h)
    exact hhead
  · split at h
    · cases h
    · split at h
      · rename_i between hbetween
        obtain ⟨-, rfl⟩ := Prod.mk.inj (Option.some.inj h)
        rw [hbetween] at hhead
        exact hhead.trans (((readGroups_takes _ true between).cons (by decide)).cons (by decide))
      · cases h

/-- An address is spelled with hexadecimal digits, dots and colons. -/
theorem chars_of_parse? {text : String} {address : IpAddress} (h : parse? text = some address) :
    ∀ c ∈ text.toList, isAddressChar c = true := by
  have hall (htakes : Takes text.toList []) : ∀ c ∈ text.toList, isAddressChar c = true := by
    obtain ⟨part, hpart, hchars⟩ := htakes
    rwa [hpart, List.append_nil]
  simp only [parse?] at h
  split at h
  · rename_i octets rest hread
    split at h
    · rename_i hempty
      exact hall (List.isEmpty_iff.mp hempty ▸ readOctets_takes hread)
    · cases h
  · split at h
    · rename_i groups rest hread
      split at h
      · rename_i hempty
        exact hall (List.isEmpty_iff.mp hempty ▸ readV6_takes hread)
      · cases h
    · cases h

/-- Addresses of the first kind are spelled in one way: four octets with dots between them. -/
theorem parse?_eq_v4_iff {text : String} : parse? text = some (.v4 octets) ↔
    octets.length = 4 ∧ (∀ octet ∈ octets, octet < 256) ∧ text = dotted octets := by
  constructor
  · intro h
    simp only [parse?] at h
    split at h
    · rename_i rest hread
      split at h
      · rename_i hempty
        obtain rfl := IpAddress.v4.inj (Option.some.inj h)
        obtain ⟨hlength, hlt⟩ := readOctets_bounds hread
        refine ⟨hlength, hlt, String.toList_inj.mp ?_⟩
        rw [readV4_spelling hread, List.isEmpty_iff.mp hempty, List.append_nil]
      · cases h
    · split at h
      · split at h <;> cases h
      · cases h
  · rintro ⟨hlength, hlt, rfl⟩
    have hread : readV4 (dotted octets).toList = some (octets, []) := by
      simpa using readV4_dotted hlength hlt (by simp [NoDigit] : NoDigit [])
    simp [parse?, hread]

/-- A text without a colon that spells an address is the text of four octets. -/
theorem parse?_dotted {text : String} {address : IpAddress} (hcolon : ':' ∉ text.toList)
    (h : parse? text = some address) :
    ∃ octets, address = .v4 octets ∧ address.text = text := by
  simp only [parse?] at h
  split at h
  · rename_i octets rest hread
    split at h
    · rename_i hempty
      obtain rfl := Option.some.inj h
      refine ⟨octets, rfl, String.toList_inj.mp ?_⟩
      rw [readV4_spelling hread, List.isEmpty_iff.mp hempty, List.append_nil]
      rfl
    · cases h
  · split at h
    · rename_i hread
      exact absurd (readV6_colon hread) hcolon
    · cases h

end ClusterConfig.IpAddress
