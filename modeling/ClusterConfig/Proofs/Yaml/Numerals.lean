import Mathlib
import ClusterConfig.Proofs.Decimal.Rounding
import ClusterConfig.Proofs.Documents.Places
import ClusterConfig.Proofs.Yaml.PlainText
import ClusterConfig.Yaml.Printer

/-!
# Numbers are read as they are written

A written number starts with a digit, after a sign or not, and may always stand as a plain scalar.
An integer is the digits of its size; a float has a point or an exponent, so that it is no integer,
and its digits have the value of its shortest decimal.
-/

set_option autoImplicit false

namespace ClusterConfig.Yaml

/-! ## Digits -/

/-- Every character is a digit. -/
def Digits (s : List Char) : Prop := ∀ c ∈ s, c.isDigit = true

theorem digits_toDigits (n : Nat) : Digits (Nat.toDigits 10 n) := fun _ hc =>
  Nat.isDigit_of_mem_toDigits (by decide) (by decide) hc

theorem digits_zeros (n : Nat) : Digits (List.replicate n '0') := by
  intro c hc
  rw [List.eq_of_mem_replicate hc]
  decide

theorem Digits.append {s t : List Char} (hs : Digits s) (ht : Digits t) : Digits (s ++ t) :=
  fun c hc => (List.mem_append.mp hc).elim (hs c) (ht c)

theorem Digits.all {s : List Char} (hs : Digits s) : s.all Char.isDigit = true :=
  List.all_eq_true.mpr hs

theorem digitsValue_eq (s : List Char) : Json.digitsValue s = Nat.ofDigitChars 10 s 0 := by
  simp only [Json.digitsValue, Nat.ofDigitChars_eq_foldl, Nat.mul_comm]

theorem digitsValue_toDigits (n : Nat) : Json.digitsValue (Nat.toDigits 10 n) = n := by
  rw [digitsValue_eq, Nat.ofDigitChars_ten_toDigits]

theorem digitsValue_append_zeros (s : List Char) (n : Nat) :
    Json.digitsValue (s ++ List.replicate n '0') = Json.digitsValue s * 10 ^ n := by
  rw [digitsValue_eq, digitsValue_eq, Nat.ofDigitChars_append, Nat.ofDigitChars_replicate_zero,
    Nat.mul_comm]

theorem digitsValue_zeros_append (n : Nat) (s : List Char) :
    Json.digitsValue (List.replicate n '0' ++ s) = Json.digitsValue s := by
  rw [digitsValue_eq, digitsValue_eq, Nat.ofDigitChars_append, Nat.ofDigitChars_replicate_zero,
    Nat.mul_zero]

/-- Only the digits of zero start with a zero. -/
theorem toDigits_head (n : Nat) (hn : 0 < n) : (Nat.toDigits 10 n).head? ≠ some '0' := by
  induction n using Nat.base_induction 10 (by decide) with
  | single m hm =>
    rw [Nat.toDigits_of_lt_base hm]
    simpa using hn.ne'
  | digit m k hk hm ih =>
    rw [← Nat.toDigits_append_toDigits (by decide) hm hk, List.head?_append_of_ne_nil _
      Nat.toDigits_ne_nil]
    exact ih hm

theorem hexValue?_digit {c : Char} (hc : c.isDigit = true) :
    Json.hexValue? c = some (c.toNat - '0'.toNat) := by
  obtain ⟨hl, hu⟩ := Char.isDigit_iff_toNat.mp hc
  have h : '0' ≤ c ∧ c ≤ '9' := ⟨hl, hu⟩
  rw [Json.hexValue?]
  simp [h.1, h.2]

/-- One more digit of a number in base ten. -/
def addDigit (acc : Nat) (c : Char) : Option Nat := do
  let v ← Json.hexValue? c
  if v < 10 then some (acc * 10 + v) else none

theorem inBase?_eq {s : List Char} (hne : s ≠ []) : Plain.inBase? 10 s = s.foldlM addDigit 0 := by
  obtain ⟨c, rest, rfl⟩ := List.exists_cons_of_ne_nil hne
  rfl

theorem foldlM_addDigit {s : List Char} (hs : Digits s) (acc : Nat) :
    s.foldlM addDigit acc = some (s.foldl (fun acc c => acc * 10 + (c.toNat - '0'.toNat)) acc) := by
  induction s generalizing acc with
  | nil => rfl
  | cons c rest ih =>
    obtain ⟨hc, hrest⟩ := List.forall_mem_cons.mp hs
    have hlt := (Json.digitChar_of_isDigit hc).1
    have hstep : addDigit acc c = some (acc * 10 + (c.toNat - '0'.toNat)) := by
      rw [addDigit, hexValue?_digit hc]
      exact if_pos hlt
    rw [List.foldlM_cons, hstep]
    exact ih hrest _

theorem inBase?_digits {s : List Char} (hs : Digits s) (hne : s ≠ []) :
    Plain.inBase? 10 s = some (Json.digitsValue s) := by
  rw [inBase?_eq hne, foldlM_addDigit hs, Json.digitsValue]

/-- A text with a character that is no digit is no number in base ten. -/
theorem inBase?_eq_none {s : List Char} {c : Char} (hc : c ∈ s)
    (hv : ∀ acc, addDigit acc c = none) : Plain.inBase? 10 s = none := by
  rw [inBase?_eq (List.ne_nil_of_mem hc)]
  generalize 0 = acc
  induction s generalizing acc with
  | nil => cases hc
  | cons x rest ih =>
    rw [List.foldlM_cons]
    rcases List.mem_cons.mp hc with rfl | hrest
    · rw [hv acc]
      rfl
    · cases addDigit acc x with
      | none => rfl
      | some next => exact ih hrest next

/-! ## Numerals -/

/-- A character of a number after its first digit. -/
def isNumeralChar (c : Char) : Bool := c.isDigit || c = '.' || c = 'e' || c = '-'

/-- What a written number looks like without its sign. -/
structure Numeral (body : List Char) : Prop where
  nonempty : body ≠ []
  first : ∀ c ∈ body.head?, c.isDigit = true
  chars : ∀ c ∈ body, isNumeralChar c = true

/-- A number with its sign in front of it. -/
def signed (negative : Bool) (body : List Char) : List Char :=
  if negative then '-' :: body else body

theorem toNat_of_isNumeralChar {c : Char} (h : isNumeralChar c = true) :
    (45 ≤ c.toNat ∧ c.toNat ≤ 57) ∨ c.toNat = 101 := by
  simp only [isNumeralChar, Bool.or_eq_true, decide_eq_true_eq, or_assoc] at h
  rcases h with hd | rfl | rfl | rfl
  · obtain ⟨hl, hu⟩ := Char.isDigit_iff_toNat.mp hd
    exact .inl ⟨hl.trans' (by decide), hu⟩
  all_goals decide

theorem isNumeralChar_of_isDigit {c : Char} (h : c.isDigit = true) : isNumeralChar c = true := by
  simp [isNumeralChar, h]

theorem isPrintable_of_isNumeralChar {c : Char} (h : isNumeralChar c = true) :
    isPrintable c = true := by
  have hc := toNat_of_isNumeralChar h
  simp only [isPrintable, Bool.or_eq_true, Bool.and_eq_true, decide_eq_true_eq]
  omega

theorem isSpaceOrBreak_of_isNumeralChar {c : Char} (h : isNumeralChar c = true) :
    isSpaceOrBreak c = false := by
  have hc := toNat_of_isNumeralChar h
  simp only [isSpaceOrBreak, isSpaceOrTab, isLineBreak, isSeparator, Bool.or_eq_false_iff,
    decide_eq_false_iff_not]
  refine ⟨⟨?_, ?_⟩, ⟨⟨?_, ?_⟩, ?_⟩, ?_, ?_⟩ <;> rintro rfl <;> revert hc <;> decide

theorem hasInnerIndicator_eq_false {s : List Char} (h : ∀ c ∈ s, c ≠ ':' ∧ c ≠ '#') (blank : Bool) :
    hasInnerIndicator blank s = false := by
  induction s generalizing blank with
  | nil => rfl
  | cons c rest ih =>
    obtain ⟨⟨hcolon, hhash⟩, hrest⟩ := List.forall_mem_cons.mp h
    simp [hasInnerIndicator, hcolon, hhash, ih hrest]

variable {negative : Bool} {body : List Char}

/-- A number starts with a digit, which is no sign and no point. -/
theorem Numeral.exists_digit (h : Numeral body) : ∃ d rest, body = d :: rest ∧
    d.isDigit = true ∧ d ≠ '-' ∧ d ≠ '+' ∧ d ≠ '.' := by
  obtain ⟨d, rest, rfl⟩ := List.exists_cons_of_ne_nil h.nonempty
  have hd : d.isDigit = true := h.first d rfl
  refine ⟨d, rest, rfl, hd, ?_, ?_, ?_⟩ <;> (rintro rfl; exact absurd hd (by decide))

theorem isNumeralChar_signed (h : Numeral body) : ∀ c ∈ signed negative body,
    isNumeralChar c = true := by
  cases negative with
  | false => exact h.chars
  | true => exact List.forall_mem_cons.mpr ⟨by decide, h.chars⟩

theorem opensIndicator_digit {d : Char} (hd : d.isDigit = true) (rest : List Char) :
    opensIndicator d rest = false := by
  obtain ⟨hlt, hd⟩ := Json.digitChar_of_isDigit hd
  rw [← hd]
  generalize d.toNat - '0'.toNat = n at hlt
  interval_cases n <;> rfl

theorem hasIndicator_signed (h : Numeral body) : hasIndicator (signed negative body) = false := by
  have hinner (blank : Bool) (s : List Char) (hs : ∀ c ∈ s, isNumeralChar c = true) :
      hasInnerIndicator blank s = false := by
    refine hasInnerIndicator_eq_false (fun c hc => ?_) blank
    constructor <;> (rintro rfl; exact absurd (hs _ hc) (by decide))
  obtain ⟨d, rest, rfl, hd, hminus, -, hpoint⟩ := h.exists_digit
  have hblank := isSpaceOrBreak_of_isNumeralChar (isNumeralChar_of_isDigit hd)
  have hrest := hinner (isSpaceOrBreak d) rest fun c hc => h.chars c (by simp [hc])
  have hall := hinner false (d :: rest) h.chars
  cases negative with
  | false =>
    simp [signed, hasIndicator, startsLikeBoundary, opensIndicator_digit hd, hrest, hminus, hpoint]
  | true =>
    have hopens : opensIndicator '-' (d :: rest) = false := by
      simp [opensIndicator, endsWord, hblank]
    have hspace : isSpaceOrBreak '-' = false := by decide
    simp [signed, hasIndicator, startsLikeBoundary, hopens, hspace, hall, hminus]

/-- A number may stand for itself. -/
theorem allowsPlain_signed (h : Numeral body) : allowsPlain (signed negative body) = true := by
  have hblank (c : Char) (hc : c ∈ signed negative body) : isEdge c = false := by
    have hc := isNumeralChar_signed h c hc
    rw [← isSpaceOrBreak_of_printable (isPrintable_of_isNumeralChar hc)]
    exact isSpaceOrBreak_of_isNumeralChar hc
  have hedge (c : Char) (hc : c ∈ signed negative body) :
      isSpace c = false ∧ isLineBreak c = false := Bool.or_eq_false_iff.mp (hblank c hc)
  rw [allowsPlain_iff]
  exact ⟨fun c hc => ⟨isPrintable_of_isNumeralChar (isNumeralChar_signed h c hc), (hedge c hc).2⟩,
    hasNeighbours_of_no_left fun c hc => (hedge c hc).1, hasIndicator_signed h,
    fun c hc => hblank c (List.mem_of_mem_head? hc),
    fun c hc => hblank c (List.mem_of_mem_getLast? hc)⟩

/-! ## What a number means -/

theorem magnitude?_eq {s : List Char} (h : ∀ c ∈ s, isNumeralChar c = true) :
    Plain.magnitude? s = if Plain.isZeroPadded s then none else Plain.inBase? 10 s := by
  have hbase (c : Char) (hc : isNumeralChar c = false) (rest : List Char) :
      s ≠ '0' :: c :: rest := by
    rintro rfl
    have := h c (by simp)
    simp_all
  rw [Plain.magnitude?]
  · exact hbase 'x' (by decide)
  · exact hbase 'o' (by decide)
  · exact hbase 'b' (by decide)

theorem withoutSign_signed (h : Numeral body) :
    Plain.withoutSign (signed negative body) = body := by
  obtain ⟨d, rest, rfl, -, hminus, hplus, -⟩ := h.exists_digit
  cases negative with
  | false => simp [signed, Plain.withoutSign, hminus, hplus]
  | true => rfl

theorem withoutSign_numeral (h : Numeral body) : Plain.withoutSign body = body := by
  have hunsigned : Plain.withoutSign (signed false body) = body := withoutSign_signed h
  rwa [signed, if_neg Bool.false_ne_true] at hunsigned

/-- A text that starts like a number is no word. -/
theorem ofList_signed_ne (h : Numeral body) {word : String}
    (hw : word.toList.head?.any isNumeralChar = false) :
    String.ofList (signed negative body) ≠ word := by
  rintro rfl
  have hne : signed negative body ≠ [] := by
    cases negative with
    | false => exact h.nonempty
    | true => exact List.cons_ne_nil _ _
  obtain ⟨c, rest, hc⟩ := List.exists_cons_of_ne_nil hne
  have hmem : c ∈ signed negative body := by simp [hc]
  have hchar : isNumeralChar c = true := isNumeralChar_signed h c hmem
  rw [String.toList_ofList, hc] at hw
  simp [hchar] at hw

theorem integer?_signed (h : Numeral body) : Plain.integer? (signed negative body) =
    (Plain.magnitude? body).map fun n : Nat => if negative then -(n : Int) else n := by
  obtain ⟨d, rest, rfl, -, hminus, hplus, -⟩ := h.exists_digit
  cases negative <;> cases hm : Plain.magnitude? (d :: rest) <;>
    simp [signed, Plain.integer?, hminus, hplus, hm]

theorem float?_signed (h : Numeral body) :
    Plain.float? (signed negative body) = Plain.decimal? negative body := by
  obtain ⟨d, rest, rfl, -, hminus, hplus, hpoint⟩ := h.exists_digit
  cases negative with
  | false =>
    simp [signed, Plain.float?, Plain.float?.signed, Plain.isNaNText, Plain.isInfinityText, hminus,
      hplus, hpoint]
  | true => simp [signed, Plain.float?, Plain.float?.signed, Plain.isInfinityText, hpoint]

theorem ofText_signed (h : Numeral body) :
    Plain.ofText (String.ofList (signed negative body)) =
      match ((Plain.magnitude? body).map fun n : Nat => if negative then -(n : Int) else n).bind
        Plain.ofInteger with
      | some value => value
      | none =>
        if Plain.isZeroPadded body then .text
        else ((Plain.decimal? negative body).map .float).getD .text := by
  have hne (word : String) (hw : word.toList.head?.any isNumeralChar = false) :
      String.ofList (signed negative body) ≠ word := ofList_signed_ne h hw
  have hpadded : Plain.isZeroPadded (signed negative body) = Plain.isZeroPadded body := by
    rw [Plain.isZeroPadded, withoutSign_signed h, Plain.isZeroPadded, withoutSign_numeral h]
  -- none of the words for null and the booleans starts like a number
  have hempty : (String.ofList (signed negative body)).isEmpty = false := by
    simpa [String.isEmpty_iff] using hne "" (by decide)
  have hnull : Plain.isNullText (String.ofList (signed negative body)) = false := by
    simp [Plain.isNullText, hne "null" (by decide), hne "Null" (by decide), hne "NULL" (by decide),
      hne "~" (by decide)]
  have hbool : Plain.bool? (String.ofList (signed negative body)) = none := by
    simp [Plain.bool?, hne "true" (by decide), hne "True" (by decide), hne "TRUE" (by decide),
      hne "false" (by decide), hne "False" (by decide), hne "FALSE" (by decide)]
  rw [Plain.ofText, hempty, hnull, hbool]
  simp only [String.toList_ofList, integer?_signed h, hpadded, float?_signed h]
  cases Option.bind _ Plain.ofInteger with
  | some value => rfl
  | none => cases Plain.decimal? negative body <;> rfl

/-! ## Integers -/

theorem numeral_toDigits (n : Nat) : Numeral (Nat.toDigits 10 n) :=
  ⟨Nat.toDigits_ne_nil, fun c hc => digits_toDigits n c (List.mem_of_mem_head? hc),
    fun c hc => isNumeralChar_of_isDigit (digits_toDigits n c hc)⟩

/-- The digits of a number have no zero in front of others. -/
theorem isZeroPadded_toDigits (n : Nat) : Plain.isZeroPadded (Nat.toDigits 10 n) = false := by
  rw [Plain.isZeroPadded, withoutSign_numeral (numeral_toDigits n)]
  split
  · rename_i rest hrest
    rcases Nat.eq_zero_or_pos n with rfl | hn
    · rw [Nat.toDigits_zero] at hrest
      simp [← (List.cons.inj hrest).2]
    · exact absurd (by rw [hrest]; rfl) (toDigits_head n hn)
  · rfl

theorem magnitude?_toDigits (n : Nat) : Plain.magnitude? (Nat.toDigits 10 n) = some n := by
  rw [magnitude?_eq (numeral_toDigits n).chars, isZeroPadded_toDigits,
    inBase?_digits (digits_toDigits n) Nat.toDigits_ne_nil, digitsValue_toDigits]
  rfl

theorem toList_toString (n : Int) :
    (toString n).toList = signed (n < 0) (Nat.toDigits 10 n.natAbs) := by
  rw [Int.toString_eq_repr, Int.repr_eq_if, signed]
  by_cases hn : n < 0
  · have habs : (-n).toNat = n.natAbs := by omega
    simp [hn, Int.not_le.mpr hn, habs, Nat.toList_repr]
  · have habs : n.toNat = n.natAbs := by omega
    simp [hn, Int.not_lt.mp hn, habs, Nat.toList_repr]

/-- An integer of 64 bits is read back. -/
theorem ofText_int {n : Int} (h : Plain.fitsWord n = true) :
    Plain.ofText (toString n) = .int n := by
  have hvalue : (if decide (n < 0) then -(n.natAbs : Int) else n.natAbs) = n := by
    simp only [decide_eq_true_eq]
    split <;> omega
  rw [← String.ofList_toList (s := toString n), toList_toString, ofText_signed (numeral_toDigits _),
    magnitude?_toDigits, Option.map_some, hvalue, Option.bind_some, Plain.ofInteger, if_pos h]

/-! ## Floats -/

theorem digits_split {s tail : List Char} (hs : Digits s)
    (ht : ∀ c ∈ tail.head?, c.isDigit = false) :
    (s ++ tail).takeWhile Char.isDigit = s ∧ (s ++ tail).dropWhile Char.isDigit = tail := by
  have htake := takeWhile_append_stop hs ht
  have hboth := List.takeWhile_append_dropWhile (p := Char.isDigit) (l := s ++ tail)
  rw [htake] at hboth
  exact ⟨htake, List.append_cancel_left hboth⟩

/-- An exponent, if there is one. -/
def exponentText : Option Int → List Char
  | none => []
  | some e => 'e' :: (toString e).toList

/-- Digits with a point in front of the last of them, if it is not at their end. -/
def fractionText (fraction : List Char) : List Char :=
  if fraction = [] then [] else '.' :: fraction

theorem head?_signed (h : Numeral body) :
    (signed negative body).head? = some '-' ↔ negative = true := by
  obtain ⟨d, rest, rfl, -, hminus, -, -⟩ := h.exists_digit
  cases negative <;> simp [signed, hminus]

theorem exponent?_exponentText (exponent : Option Int) :
    Plain.exponent? (exponentText exponent) = some (exponent.getD 0) := by
  cases exponent with
  | none => rfl
  | some e =>
    have hn := numeral_toDigits e.natAbs
    have hdigits : (Nat.toDigits 10 e.natAbs).all Char.isDigit = true :=
      (digits_toDigits e.natAbs).all
    have hvalue : (if e < 0 then -|e| else |e|) = e := by
      split
      · rw [abs_of_neg ‹_›, neg_neg]
      · exact abs_of_nonneg (not_lt.mp ‹_›)
    rw [exponentText, toList_toString, Plain.exponent?]
    simp [withoutSign_signed hn, hdigits, digitsValue_toDigits, head?_signed hn, hvalue]

theorem head?_exponentText (exponent : Option Int) :
    ∀ c ∈ (exponentText exponent).head?, c = 'e' := by
  cases exponent <;> simp [exponentText]

/-- The digits of a decimal, with a point among them and an exponent or not, are read as its
value. -/
theorem decimal?_eq {whole fraction : List Char} (hw : Digits whole) (hne : whole ≠ [])
    (hf : Digits fraction) (exponent : Option Int) :
    Plain.decimal? negative (whole ++ (fractionText fraction ++ exponentText exponent)) =
      let value := Binary64.ofDecimal negative (Json.digitsValue (whole ++ fraction))
        (exponent.getD 0 - fraction.length)
      if value.isFinite then some value else none := by
  have he : ∀ c ∈ (exponentText exponent).head?, c.isDigit = false := by
    intro c hc
    rw [head?_exponentText exponent c hc]
    decide
  have htail : ∀ c ∈ (fractionText fraction ++ exponentText exponent).head?,
      c.isDigit = false := by
    rw [fractionText]
    split
    · exact he
    · rintro c ⟨⟩
      decide
  obtain ⟨htake, hdrop⟩ := digits_split hw htail
  obtain ⟨hftake, hfdrop⟩ := digits_split hf he
  rw [Plain.decimal?, htake, hdrop, fractionText]
  by_cases hfraction : fraction = []
  · have hexp := exponent?_exponentText exponent
    cases exponent with
    | none => simp [hfraction, exponentText, hne, Plain.exponent?]
    | some e =>
      rw [exponentText] at hexp ⊢
      simp [hfraction, hne, hexp, -Int.toString_eq_repr]
  · simp [hfraction, hftake, hfdrop, exponent?_exponentText]

/-- The text is that of digits of the decimal's value, and no integer. -/
def Spells (d : Decimal) (s : List Char) : Prop :=
  ∃ whole fraction exponent, s = whole ++ (fractionText fraction ++ exponentText exponent) ∧
    Digits whole ∧ whole ≠ [] ∧ Digits fraction ∧ (fraction ≠ [] ∨ exponent ≠ none) ∧
    ∀ negative, Binary64.ofDecimal negative (Json.digitsValue (whole ++ fraction))
      (exponent.getD 0 - fraction.length) = Binary64.ofDecimal negative d.digits d.power

section Spelling

variable {d : Decimal}

theorem spells_zero (hd : d.digits = 0) : Spells d ['0', '.', '0'] := by
  refine ⟨['0'], ['0'], none, rfl, by simp [Digits], by simp, by simp [Digits], by simp,
    fun negative => ?_⟩
  have hzeros : Json.digitsValue (['0'] ++ ['0']) = 0 := rfl
  rw [hzeros, hd, Binary64.ofDecimal_zero, Binary64.ofDecimal_zero]

/-- A whole number, with a zero after its point. -/
theorem spells_whole (hpower : 0 ≤ d.power) :
    Spells d (Nat.toDigits 10 d.digits ++ List.replicate d.power.toNat '0' ++ ['.', '0']) := by
  refine ⟨Nat.toDigits 10 d.digits ++ List.replicate d.power.toNat '0', ['0'], none, rfl,
    (digits_toDigits _).append (digits_zeros _), by simp, by simp [Digits], by simp,
    fun negative => ?_⟩
  have hshift := Binary64.ofDecimal_shift negative d.digits d.power (d.power.toNat + 1)
  have hplaces : d.power - ((d.power.toNat + 1 : Nat) : Int) =
      (none : Option Int).getD 0 - ['0'].length := by
    simp only [Option.getD_none, List.length_singleton]
    omega
  have hzeros : List.replicate d.power.toNat '0' ++ ['0'] =
      List.replicate (d.power.toNat + 1) '0' := List.replicate_succ'.symm
  rw [List.append_assoc, hzeros, digitsValue_append_zeros, digitsValue_toDigits, ← hplaces, hshift]

/-- All digits are there, those after the point and the exponent make up the power. -/
theorem spells_digits {whole fraction : List Char} {exponent : Option Int}
    (hd : whole ++ fraction = Nat.toDigits 10 d.digits) (hw : whole ≠ [])
    (hf : fraction ≠ [] ∨ exponent ≠ none) (hpower : exponent.getD 0 - fraction.length = d.power) :
    Spells d (whole ++ (fractionText fraction ++ exponentText exponent)) := by
  have hdigits := digits_toDigits d.digits
  rw [← hd] at hdigits
  refine ⟨whole, fraction, exponent, rfl, fun c hc => hdigits c (List.mem_append_left _ hc), hw,
    fun c hc => hdigits c (List.mem_append_right _ hc), hf, fun negative => ?_⟩
  rw [hd, digitsValue_toDigits, hpower]

/-- A number below one, with zeros behind its point. -/
theorem spells_small {n : Nat} (hpower : -(n + (Nat.toDigits 10 d.digits).length : Int) = d.power) :
    Spells d ('0' :: '.' :: (List.replicate n '0' ++ Nat.toDigits 10 d.digits)) := by
  refine ⟨['0'], List.replicate n '0' ++ Nat.toDigits 10 d.digits, none, ?_, by simp [Digits],
    by simp, (digits_zeros _).append (digits_toDigits _), by simp, fun negative => ?_⟩
  · simp [fractionText, exponentText]
  · have hzeros : ['0'] ++ (List.replicate n '0' ++ Nat.toDigits 10 d.digits) =
        List.replicate (n + 1) '0' ++ Nat.toDigits 10 d.digits := rfl
    have hplaces : (none : Option Int).getD 0 -
        ((List.replicate n '0' ++ Nat.toDigits 10 d.digits).length : Int) = d.power := by
      simp only [Option.getD_none, List.length_append, List.length_replicate]
      omega
    rw [hzeros, digitsValue_zeros_append, digitsValue_toDigits, hplaces]

/-- One digit in front of the point, and an exponent. -/
theorem spells_exponent {c : Char} {rest : List Char} (hs : Nat.toDigits 10 d.digits = c :: rest) :
    Spells d (c :: (fractionText rest ++ exponentText (some (rest.length + d.power)))) := by
  have hpower : (some (rest.length + d.power)).getD 0 - rest.length = d.power := by
    rw [Option.getD_some]
    omega
  exact spells_digits hs.symm (List.cons_ne_nil c []) (.inr (Option.some_ne_none _)) hpower

end Spelling

theorem spells_spell (d : Decimal) : Spells d (FloatLayout.unsigned.spell d).toList := by
  have hne : Nat.toDigits 10 d.digits ≠ [] := Nat.toDigits_ne_nil
  -- the writer marks every exponent alike
  have hmark (p : Prop) [Decidable p] : (if p then FloatLayout.unsigned.mark else "e") = "e" :=
    ite_self _
  simp only [FloatLayout.spell, hmark]
  split_ifs with hzero hwhole hinside hsmall
  · exact spells_zero hzero
  · have hpower : 0 ≤ d.power := by simpa using (Bool.and_eq_true_iff.mp hwhole).1
    simpa [FloatLayout.zeros] using spells_whole hpower
  · generalize hplace : (Nat.toDigits 10 d.digits).length + d.power = place at hinside hwhole ⊢
    obtain ⟨hpos, hlarge⟩ : 0 < place ∧ place ≤ FloatLayout.unsigned.largest := by
      simpa using hinside
    -- the point stands inside the digits
    have hpower : d.power < 0 := by simpa [hlarge] using hwhole
    have hdrop : (((Nat.toDigits 10 d.digits).drop place.toNat).length : Int) = -d.power := by
      rw [List.length_drop]
      omega
    have hfraction : (Nat.toDigits 10 d.digits).drop place.toNat ≠ [] := by
      rintro hnil
      rw [hnil, List.length_nil] at hdrop
      omega
    have hwhole : (Nat.toDigits 10 d.digits).take place.toNat ≠ [] := by
      rw [Ne, List.take_eq_nil_iff]
      exact not_or.mpr ⟨by omega, hne⟩
    have hspells := spells_digits (List.take_append_drop place.toNat _) hwhole (.inl hfraction)
      (show (none : Option Int).getD 0 - _ = d.power by rw [Option.getD_none, hdrop]; omega)
    simpa [fractionText, hfraction, exponentText] using hspells
  · generalize hplace : (Nat.toDigits 10 d.digits).length + d.power = place at hsmall ⊢
    obtain ⟨-, hpos⟩ : _ ∧ place ≤ 0 := by simpa using hsmall
    have hspells : Spells d _ := spells_small (n := (-place).toNat) (by omega)
    simpa [FloatLayout.zeros] using hspells
  · generalize hplace : (Nat.toDigits 10 d.digits).length + d.power = place
    cases hs : Nat.toDigits 10 d.digits with
    | nil => exact absurd hs hne
    | cons c rest =>
      have hspells := spells_exponent hs
      have hexp : (rest.length + d.power : Int) = place - 1 := by
        rw [hs, List.length_cons] at hplace
        omega
      rw [hexp] at hspells
      cases rest <;> simpa [fractionText, exponentText] using hspells

section Reading

variable {d : Decimal} {s : List Char}

theorem Spells.numeral (h : Spells d s) : Numeral s := by
  obtain ⟨whole, fraction, exponent, rfl, hw, hne, hf, -, -⟩ := h
  have hfraction : ∀ c ∈ fractionText fraction, isNumeralChar c = true := by
    rw [fractionText]
    split
    · simp
    · exact List.forall_mem_cons.mpr ⟨by decide, fun c hc => isNumeralChar_of_isDigit (hf c hc)⟩
  have hexponent : ∀ c ∈ exponentText exponent, isNumeralChar c = true := by
    cases exponent with
    | none => simp [exponentText]
    | some e =>
      rw [exponentText, toList_toString]
      exact List.forall_mem_cons.mpr ⟨by decide, isNumeralChar_signed (numeral_toDigits _)⟩
  refine ⟨by simp [hne], fun c hc => ?_, fun c hc => ?_⟩
  · rw [List.head?_append_of_ne_nil _ hne] at hc
    exact hw c (List.mem_of_mem_head? hc)
  · simp only [List.mem_append] at hc
    exact hc.elim (fun hc => isNumeralChar_of_isDigit (hw c hc))
      (Or.elim · (hfraction c) (hexponent c))

/-- The point or the exponent. -/
theorem Spells.mark (h : Spells d s) : ∃ c ∈ s, c = '.' ∨ c = 'e' := by
  obtain ⟨whole, fraction, exponent, rfl, -, -, -, hmark, -⟩ := h
  rcases hmark with hf | he
  · exact ⟨'.', by simp [fractionText, hf], .inl rfl⟩
  · obtain ⟨e, rfl⟩ := Option.ne_none_iff_exists'.mp he
    exact ⟨'e', by simp [exponentText], .inr rfl⟩

theorem Spells.magnitude? (h : Spells d s) : Plain.magnitude? s = none := by
  obtain ⟨c, hc, hmark⟩ := h.mark
  have hnone : Plain.inBase? 10 s = none := by
    refine inBase?_eq_none hc fun acc => ?_
    rcases hmark with rfl | rfl <;> rfl
  rw [magnitude?_eq h.numeral.chars, hnone, ite_self]

theorem Spells.isZeroPadded (h : Spells d s) : Plain.isZeroPadded s = false := by
  obtain ⟨c, hc, hmark⟩ := h.mark
  have hdigit : c.isDigit = false := by rcases hmark with rfl | rfl <;> decide
  rw [Plain.isZeroPadded, withoutSign_numeral h.numeral]
  split
  · rename_i rest
    have hrest : c ∈ rest := by
      rcases List.mem_cons.mp hc with rfl | hrest
      · exact absurd hdigit (by decide)
      · exact hrest
    have hall : rest.all Char.isDigit = false :=
      List.all_eq_false.mpr ⟨c, hrest, by simp [hdigit]⟩
    rw [hall, Bool.and_false]
  · rfl

theorem Spells.decimal? (h : Spells d s) (negative : Bool) : Plain.decimal? negative s =
    if (Binary64.ofDecimal negative d.digits d.power).isFinite then
      some (Binary64.ofDecimal negative d.digits d.power)
    else none := by
  obtain ⟨whole, fraction, exponent, rfl, hw, hne, hf, -, hvalue⟩ := h
  rw [decimal?_eq hw hne hf, hvalue]

variable {x : Binary64}

theorem toList_floatText (h : x.isFinite = true) : (floatText x).toList =
    signed x.isNegative (FloatLayout.unsigned.spell (Decimal.shortest x)).toList := by
  have hx : x.magnitude < Binary64.infiniteMagnitude := of_decide_eq_true h
  have hnan : x.isNaN = false := decide_eq_false hx.not_gt
  have hinf : x.isInfinite = false := decide_eq_false hx.ne
  rw [floatText, hnan, hinf, Binary64.text, signed]
  cases x.isNegative <;> simp

theorem allowsPlain_floatText (h : x.isFinite = true) :
    allowsPlain (floatText x).toList = true := by
  rw [toList_floatText h]
  exact allowsPlain_signed (spells_spell _).numeral

/-- A finite float is read back. -/
theorem ofText_floatText (h : x.isFinite = true) : Plain.ofText (floatText x) = .float x := by
  have hspells := spells_spell (Decimal.shortest x)
  have hvalue := Decimal.ofDecimal_of_readsAs (Decimal.readsAs_shortest h)
  rw [← String.ofList_toList (s := floatText x), toList_floatText h, ofText_signed hspells.numeral,
    hspells.magnitude?, hspells.isZeroPadded, hspells.decimal?, hvalue, if_pos h]
  rfl

theorem allowsPlain_int (n : Int) : allowsPlain (toString n).toList = true := by
  rw [toList_toString]
  exact allowsPlain_signed (numeral_toDigits _)

end Reading

end ClusterConfig.Yaml
