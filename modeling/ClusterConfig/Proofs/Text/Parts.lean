import Mathlib.Data.List.DropRight
import Mathlib.Data.List.TakeWhile
import Mathlib.Data.Nat.Notation
import Mathlib.Data.String.Basic
import ClusterConfig.Text.Digits
import ClusterConfig.Text.Lines

/-!
# Parts of texts

Texts are trimmed and taken apart: blanks at the ends, a beginning or an ending, the first of some
marks or all of them, and lines. Each part is described by the text that it is put together from.

A number is spelled by one or more decimal digits, of which the first ones may be zeros. The reader
takes a text exactly if it spells a number that is not too large, with or without a plus sign.
-/

set_option autoImplicit false

namespace ClusterConfig.Text

variable {limit n : ℕ} {c mark : Char} {s t u v line : List Char} {ls : List (List Char)}

/-! ## Letters and digits -/

theorem code_of_isAlphanum (h : c.isAlphanum = true) : 48 ≤ c.toNat ∧ c.toNat ≤ 122 := by
  delta Char.isAlphanum Char.isAlpha Char.isUpper Char.isLower Char.isDigit at h
  simp [UInt32.le_iff_toNat_le] at h
  omega

theorem not_isDigit_of_isAlpha (h : c.isAlpha = true) : c.isDigit = false := by
  delta Char.isAlpha Char.isUpper Char.isLower at h
  delta Char.isDigit
  simp [UInt32.le_iff_toNat_le] at h ⊢
  omega

theorem isBlank_of_isAlphanum (h : c.isAlphanum = true) : isBlank c = false := by
  have hcode := code_of_isAlphanum h
  simp [isBlank]
  omega

theorem ascii_of_isAlphanum (h : c.isAlphanum = true) : c.val ≤ 127 := by
  rw [UInt32.le_iff_toNat_le]
  exact (code_of_isAlphanum h).2.trans (by decide)

/-! ## Numbers -/

/-- One or more decimal digits that have this value in base ten. -/
structure Spells (s : List Char) (n : ℕ) : Prop where
  not_empty : s ≠ []
  digits : ∀ c ∈ s, c.isDigit = true
  value : Nat.ofDigitChars 10 s 0 = n

theorem decimalValue_eq (s : List Char) : decimalValue s = Nat.ofDigitChars 10 s 0 := by
  simp only [decimalValue, digitValue, Nat.ofDigitChars_eq_foldl, Nat.mul_comm]

theorem spells_toDigits (n : ℕ) : Spells (Nat.toDigits 10 n) n where
  not_empty := Nat.toDigits_ne_nil
  digits _ hc := Nat.isDigit_of_mem_toDigits (by decide) (by decide) hc
  value := Nat.ofDigitChars_ten_toDigits

theorem Spells.no_mark (h : Spells s n) {mark : Char} (hmark : mark.isDigit = false) : mark ∉ s :=
  fun hm => Bool.false_ne_true (hmark.symm.trans (h.digits mark hm))

theorem decimal?_eq_some_iff : decimal? limit s = some n ↔ Spells s n ∧ n ≤ limit := by
  have hspells : Spells s n ↔ (s.isEmpty || !s.all Char.isDigit) = false ∧ decimalValue s = n := by
    rw [decimalValue_eq, Bool.or_eq_false_iff, Bool.not_eq_false', List.all_eq_true,
      List.isEmpty_eq_false_iff]
    exact ⟨fun h => ⟨⟨h.not_empty, h.digits⟩, h.value⟩, fun h => ⟨h.1.1, h.1.2, h.2⟩⟩
  rw [decimal?, hspells]
  split
  · rename_i hbad
    simp [hbad]
  · split <;> grind

/-- A plus sign in front of the digits is passed over. -/
theorem unsigned?_eq_some_iff : unsigned? limit s = some n ↔
    (Spells s n ∨ ∃ digits, s = '+' :: digits ∧ Spells digits n) ∧ n ≤ limit := by
  rw [unsigned?.eq_def]
  split
  · rename_i digits
    have hplus : ¬Spells ('+' :: digits) n := fun h => h.no_mark (by decide) List.mem_cons_self
    simp [decimal?_eq_some_iff, hplus]
  · rename_i hplus
    rw [decimal?_eq_some_iff, or_iff_left]
    rintro ⟨digits, rfl, -⟩
    exact hplus digits rfl

theorem unsigned?_of_spells (h : Spells s n) (hn : n ≤ limit) : unsigned? limit s = some n :=
  unsigned?_eq_some_iff.mpr ⟨.inl h, hn⟩

/-! ## Blanks at the ends -/

theorem trimStartChars_cons (hc : isBlank c = false) (s : List Char) :
    trimStartChars (c :: s) = c :: s := by
  simp [trimStartChars, hc]

theorem trimStartChars_append_blanks (hu : ∀ c ∈ u, isBlank c = true) (v : List Char) :
    trimStartChars (u ++ v) = trimStartChars v :=
  List.dropWhile_append_of_pos hu

theorem trimEndChars_blanks (hs : ∀ c ∈ s, isBlank c = true) : trimEndChars s = [] :=
  List.rdropWhile_eq_nil_iff.mpr hs

theorem trimEndChars_isPrefix (s : List Char) : trimEndChars s <+: s :=
  List.rdropWhile_prefix isBlank s

theorem trimEndChars_trimEndChars (s : List Char) :
    trimEndChars (trimEndChars s) = trimEndChars s :=
  List.rdropWhile_idempotent isBlank s

/-- In front of a character that is no blank nothing is trimmed from the end. -/
theorem trimEndChars_append (hc : isBlank c = false) (u v : List Char) :
    trimEndChars (u ++ c :: v) = u ++ c :: trimEndChars v := by
  simp only [trimEndChars, List.reverse_append, List.reverse_cons, List.append_assoc]
  rw [List.dropWhile_append]
  split
  · rename_i hv
    have hv : v.reverse.dropWhile isBlank = [] := by simpa using hv
    simp [hv, hc]
  · simp

theorem trimEndChars_cons (hc : isBlank c = false) (s : List Char) :
    trimEndChars (c :: s) = c :: trimEndChars s :=
  trimEndChars_append hc [] s

theorem trimEndChars_concat (hc : isBlank c = false) (s : List Char) :
    trimEndChars (s ++ [c]) = s ++ [c] :=
  trimEndChars_append hc s []

theorem trimChars_of_not_blank (h : ∀ c ∈ s, isBlank c = false) : trimChars s = s := by
  cases s with
  | nil => rfl
  | cons c s =>
    rw [trimChars, trimStartChars_cons (h c List.mem_cons_self)]
    refine List.rdropWhile_eq_self_iff.mpr fun hne => ?_
    rw [h _ (List.getLast_mem hne)]
    exact Bool.false_ne_true

theorem trimChars_enclosed (hc : isBlank c = false) (s : List Char) :
    trimChars (c :: (s ++ [c])) = c :: (s ++ [c]) := by
  rw [trimChars, trimStartChars_cons hc, trimEndChars_cons hc, trimEndChars_concat hc]

/-- A text is blank, or it has a first character that is not. -/
theorem blank_or_first (s : List Char) :
    (∀ c ∈ s, isBlank c = true) ∨
      ∃ u c v, s = u ++ c :: v ∧ (∀ x ∈ u, isBlank x = true) ∧ isBlank c = false := by
  induction s with
  | nil => simp
  | cons x s ih =>
    by_cases hx : isBlank x = true
    · obtain hs | ⟨u, c, v, rfl, hu, hc⟩ := ih
      · exact .inl (List.forall_mem_cons.mpr ⟨hx, hs⟩)
      · exact .inr ⟨x :: u, c, v, rfl, List.forall_mem_cons.mpr ⟨hx, hu⟩, hc⟩
    · exact .inr ⟨[], x, s, rfl, by simp, by simpa using hx⟩

theorem trimChars_trimEndChars (s : List Char) : trimChars (trimEndChars s) = trimChars s := by
  obtain hs | ⟨u, c, v, rfl, hu, hc⟩ := blank_or_first s
  · have hstart : trimStartChars s = [] := List.dropWhile_eq_nil_iff.mpr hs
    rw [trimEndChars_blanks hs, trimChars, trimChars, hstart]
    rfl
  · rw [trimEndChars_append hc]
    simp only [trimChars, trimStartChars_append_blanks hu, trimStartChars_cons hc,
      trimEndChars_cons hc, trimEndChars_trimEndChars]

/-! ## Beginnings and endings -/

theorem afterStart?_eq_some_iff : afterStart? u s = some v ↔ s = u ++ v := by
  induction u generalizing s with
  | nil => simp [afterStart?]
  | cons c u ih =>
    cases s with
    | nil => simp [afterStart?]
    | cons d s =>
      rw [afterStart?]
      by_cases h : c = d
      · simp [h, ih]
      · simp [h, Ne.symm h]

theorem beforeEnd?_eq_some_iff : beforeEnd? v s = some u ↔ s = u ++ v := by
  rw [beforeEnd?, Option.map_eq_some_iff]
  simp only [afterStart?_eq_some_iff]
  constructor
  · rintro ⟨rest, hs, rfl⟩
    simpa using congrArg List.reverse hs
  · rintro rfl
    exact ⟨u.reverse, by simp, by simp⟩

theorem beforeEnd?_of_last (h : s.getLast? ≠ some mark) : beforeEnd? [mark] s = none := by
  refine Option.eq_none_iff_forall_ne_some.mpr fun u hu => h ?_
  rw [beforeEnd?_eq_some_iff.mp hu, List.getLast?_append]
  rfl

/-! ## The first of some marks -/

theorem splitFirst?_eq_some_iff : splitFirst? mark s = some (u, v) ↔ s = u ++ mark :: v ∧ mark ∉ u := by
  induction s generalizing u with
  | nil => simp [splitFirst?]
  | cons c s ih =>
    rw [splitFirst?]
    split
    · rename_i hc
      cases u with
      | nil => simp [hc]
      | cons d u =>
        simp only [Option.some.injEq, Prod.mk.injEq, reduceCtorEq, false_and, false_iff, hc]
        rintro ⟨heq, hmem⟩
        exact hmem ((List.cons.inj heq).1 ▸ List.mem_cons_self)
    · rename_i hc
      cases u with
      | nil => simp [hc]
      | cons d u =>
        rw [Option.map_eq_some_iff]
        simp only [Prod.exists, Prod.mk.injEq, List.cons.injEq, List.cons_append, List.mem_cons,
          not_or]
        constructor
        · rintro ⟨before, after, hs, ⟨rfl, rfl⟩, rfl⟩
          obtain ⟨rfl, hmem⟩ := ih.mp hs
          exact ⟨⟨rfl, rfl⟩, Ne.symm hc, hmem⟩
        · rintro ⟨⟨rfl, hs⟩, -, hmem⟩
          exact ⟨u, v, ih.mpr ⟨hs, hmem⟩, ⟨rfl, rfl⟩, rfl⟩

theorem splitFirst?_eq_none_iff : splitFirst? mark s = none ↔ mark ∉ s := by
  induction s with
  | nil => simp [splitFirst?]
  | cons c s ih =>
    by_cases hc : c = mark
    · simp [splitFirst?, hc]
    · simp [splitFirst?, hc, Ne.symm hc, ih]

/-! ## The parts between marks -/

theorem splitAll_eq_splitOn (mark : Char) (s : List Char) : splitAll mark s = s.splitOn mark := by
  induction s with
  | nil => rfl
  | cons c s ih =>
    rw [splitAll, List.splitOn_cons_eq_if_modifyHead, ih]
    by_cases hc : c = mark
    · simp [hc]
    · rw [if_neg hc, if_neg (by simpa using hc)]
      cases h : s.splitOn mark with
      | nil => exact absurd h (List.splitOn_ne_nil mark s)
      | cons part parts => rfl

theorem splitAll_ne_nil (mark : Char) (s : List Char) : splitAll mark s ≠ [] := by
  rw [splitAll_eq_splitOn]
  exact List.splitOn_ne_nil mark s

theorem splitAll_of_not_mem (h : mark ∉ s) : splitAll mark s = [s] := by
  rw [splitAll_eq_splitOn, List.splitOn_eq_singleton h]

theorem splitAll_append (mark : Char) (s t : List Char) :
    splitAll mark (s ++ mark :: t) = splitAll mark s ++ splitAll mark t := by
  simp only [splitAll_eq_splitOn, List.splitOn_append_cons_self]

theorem intercalate_splitAll (mark : Char) (s : List Char) :
    [mark].intercalate (splitAll mark s) = s := by
  rw [splitAll_eq_splitOn, List.intercalate_splitOn]

theorem splitAll_intercalate (hne : ls ≠ []) (h : ∀ part ∈ ls, mark ∉ part) :
    splitAll mark ([mark].intercalate ls) = ls := by
  rw [splitAll_eq_splitOn, List.splitOn_intercalate mark h hne]

theorem not_mem_of_splitAll (mark : Char) (s : List Char) :
    ∀ part ∈ splitAll mark s, mark ∉ part := by
  induction s with
  | nil => simp [splitAll]
  | cons c s ih =>
    rw [splitAll]
    split
    · exact List.forall_mem_cons.mpr ⟨List.not_mem_nil, ih⟩
    · rename_i hc
      split
      · simp [Ne.symm hc]
      · rename_i part parts hparts
        obtain ⟨hpart, hrest⟩ := List.forall_mem_cons.mp (hparts ▸ ih)
        refine List.forall_mem_cons.mpr ⟨?_, hrest⟩
        simp [Ne.symm hc, hpart]

theorem mem_of_mem_splitAll {part : List Char} (hpart : part ∈ splitAll mark s) (hc : c ∈ part) :
    c ∈ s := by
  induction s generalizing part with
  | nil => simp_all [splitAll]
  | cons d s ih =>
    rw [splitAll] at hpart
    split at hpart
    · obtain rfl | hm := List.mem_cons.mp hpart
      · exact absurd hc List.not_mem_nil
      · exact List.mem_cons_of_mem d (ih hm hc)
    · split at hpart
      · rename_i hnil
        exact absurd hnil (splitAll_ne_nil mark s)
      · rename_i first parts hparts
        obtain rfl | hm := List.mem_cons.mp hpart
        · exact List.mem_cons.mpr ((List.mem_cons.mp hc).imp_right
            (ih (hparts ▸ List.mem_cons_self)))
        · exact List.mem_cons_of_mem d (ih (hparts ▸ List.mem_cons_of_mem _ hm) hc)

theorem length_splitAll (mark : Char) (s : List Char) :
    (splitAll mark s).length = s.count mark + 1 := by
  induction s with
  | nil => rfl
  | cons c s ih =>
    rw [splitAll, List.count_cons]
    by_cases hc : c = mark
    · simp [hc, ih]
    · rw [if_neg hc]
      cases hs : splitAll mark s with
      | nil => exact absurd hs (splitAll_ne_nil mark s)
      | cons part parts => simpa [hs, hc] using ih

/-- What stands behind the last mark of a text. -/
theorem exists_last_part (mark : Char) (s : List Char) :
    ∃ part, mark ∉ part ∧ (s = part ∨ ∃ above, s = above ++ mark :: part) := by
  induction s with
  | nil => exact ⟨[], List.not_mem_nil, .inl rfl⟩
  | cons c s ih =>
    obtain ⟨part, hpart, rfl | ⟨above, rfl⟩⟩ := ih
    · by_cases hc : c = mark
      · exact ⟨s, hpart, .inr ⟨[], by rw [hc, List.nil_append]⟩⟩
      · exact ⟨c :: s, by simp [hpart, Ne.symm hc], .inl rfl⟩
    · exact ⟨part, hpart, .inr ⟨c :: above, rfl⟩⟩

/-! ## Lines -/

theorem rawLines_append (h : '\n' ∉ line) (rest : List Char) :
    rawLines (line ++ '\n' :: rest) = (line ++ ['\n']) :: rawLines rest := by
  induction line with
  | nil => simp [rawLines]
  | cons c line ih =>
    obtain ⟨hc, hline⟩ : '\n' ≠ c ∧ '\n' ∉ line := by simpa using h
    rw [List.cons_append, rawLines, if_neg hc.symm, ih hline]
    rfl

theorem rawLines_of_not_mem (h : '\n' ∉ line) (hne : line ≠ []) : rawLines line = [line] := by
  induction line with
  | nil => exact absurd rfl hne
  | cons c line ih =>
    obtain ⟨hc, hline⟩ : '\n' ≠ c ∧ '\n' ∉ line := by simpa using h
    rw [rawLines, if_neg hc.symm]
    by_cases hnil : line = []
    · rw [hnil]
      rfl
    · rw [ih hline hnil]

/-- A line that does not end with a carriage return is all that stands before its newline. -/
theorem lines_append (h : '\n' ∉ line) (hcr : line.getLast? ≠ some '\r') (rest : List Char) :
    lines (line ++ '\n' :: rest) = line :: lines rest := by
  have hline : withoutLineEnd (line ++ ['\n']) = line := by
    rw [withoutLineEnd, beforeEnd?_eq_some_iff.mpr rfl]
    simp [beforeEnd?_of_last hcr]
  rw [lines, rawLines_append h, List.map_cons, hline, lines]

theorem lines_of_not_mem (h : '\n' ∉ line) (hne : line ≠ []) : lines line = [line] := by
  have hend : beforeEnd? ['\n'] line = none :=
    beforeEnd?_of_last fun hlast => h (List.mem_of_getLast? hlast)
  rw [lines, rawLines_of_not_mem h hne, List.map_singleton, withoutLineEnd, hend]

/-- A line that is no other line with its end: without newlines, and with no carriage return last. -/
def IsLine (line : List Char) : Prop := '\n' ∉ line ∧ line.getLast? ≠ some '\r'

theorem isLine_concat (hs : '\n' ∉ s) (hc : c ≠ '\n') (hcr : c ≠ '\r') : IsLine (s ++ [c]) := by
  constructor
  · simp [hs, hc.symm]
  · simpa using hcr

theorem lines_ended (h : ∀ line ∈ ls, IsLine line) : lines (ls.flatMap (· ++ ['\n'])) = ls := by
  induction ls with
  | nil => rfl
  | cons line rest ih =>
    obtain ⟨⟨hline, hcr⟩, hrest⟩ := List.forall_mem_cons.mp h
    rw [List.flatMap_cons, List.append_assoc, List.singleton_append, lines_append hline hcr,
      ih hrest]

/-- The newline behind the last line may be missing. -/
theorem lines_intercalate (h : ∀ line ∈ ls, IsLine line) (hne : ∀ line ∈ ls, line ≠ []) :
    lines (['\n'].intercalate ls) = ls := by
  induction ls with
  | nil => rfl
  | cons line rest ih =>
    obtain ⟨⟨hline, hcr⟩, hrest⟩ := List.forall_mem_cons.mp h
    obtain ⟨hfirst, hne⟩ := List.forall_mem_cons.mp hne
    by_cases hnil : rest = []
    · rw [hnil, List.intercalate_singleton, lines_of_not_mem hline hfirst]
    · rw [List.intercalate_cons_of_ne_nil hnil, List.append_assoc, List.singleton_append,
        lines_append hline hcr, ih hrest hne]

/-! ## Bytes -/

theorem byteCount_eq_utf8Len (s : List Char) : byteCount s = String.utf8Len s := by
  induction s with
  | nil => rfl
  | cons c s ih => rw [byteCount, ih, String.utf8Len_cons, Nat.add_comm]

theorem byteCount_toList (text : String) : byteCount text.toList = text.utf8ByteSize := by
  rw [byteCount_eq_utf8Len, String.utf8Len_toList]

theorem byteCount_eq_length (h : ∀ c ∈ s, c.val ≤ 127) : byteCount s = s.length := by
  induction s with
  | nil => rfl
  | cons c s ih =>
    obtain ⟨hc, hs⟩ := List.forall_mem_cons.mp h
    rw [byteCount, Char.utf8Size_eq_one_iff.mpr hc, ih hs, List.length_cons, Nat.add_comm]

theorem toList_loop_eq (bytes : ByteArray) (i : Nat) (read : List UInt8) :
    ByteArray.toList.loop bytes i read = read.reverse ++ bytes.data.toList.drop i := by
  induction i, read using ByteArray.toList.loop.induct bytes with
  | case1 i read h ih =>
    have hi : i < bytes.data.toList.length := h
    have hbyte : bytes.get! i = bytes.data.toList[i] := getElem!_pos bytes.data i h
    rw [ByteArray.toList.loop, if_pos h, ih, List.drop_eq_getElem_cons hi, hbyte]
    simp
  | case2 i read h =>
    have hi : bytes.data.toList.length ≤ i := Nat.not_lt.mp h
    rw [ByteArray.toList.loop, if_neg h, List.drop_eq_nil_of_le hi, List.append_nil]

theorem toList_bytes (bytes : ByteArray) : bytes.toList = bytes.data.toList := by
  rw [ByteArray.toList, toList_loop_eq, List.reverse_nil, List.nil_append, List.drop_zero]

/-- The bytes of a text without characters beyond ASCII are the codes of its characters. -/
theorem bytes_of_ascii (h : ∀ c ∈ s, c.val ≤ 127) :
    (String.ofList s).toUTF8.toList = s.map fun c => c.val.toUInt8 := by
  rw [toList_bytes, String.toUTF8_eq_toByteArray, String.toByteArray_ofList]
  have hencode : s.utf8Encode = (s.flatMap String.utf8EncodeChar).toByteArray := rfl
  rw [hencode, List.toList_data_toByteArray]
  induction s with
  | nil => rfl
  | cons c s ih =>
    obtain ⟨hc, hs⟩ := List.forall_mem_cons.mp h
    rw [List.flatMap_cons, String.utf8EncodeChar_eq_singleton (Char.utf8Size_eq_one_iff.mpr hc),
      ih hs rfl]
    rfl

end ClusterConfig.Text
