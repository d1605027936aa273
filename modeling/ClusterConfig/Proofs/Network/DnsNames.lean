import Mathlib
import ClusterConfig.Network.Range
import ClusterConfig.Proofs.Text.Parts

/-!
# Names and their labels

A name is scanned from left to right, and what may follow depends on whether the scan stands at the
start of a label, inside of one or behind a hyphen. A scan that ends inside of a label has gone
through labels only, and these are the parts between the dots.
-/

set_option autoImplicit false

namespace ClusterConfig

/-- A text that is not empty, made of `inner` characters and with `ends` characters at both ends. -/
@[mk_iff]
structure IsFramed (ends inner : Char → Bool) (s : List Char) : Prop where
  not_empty : s ≠ []
  inside : ∀ c ∈ s, inner c = true
  first : ∀ c ∈ s.head?, ends c = true
  last : ∀ c ∈ s.getLast?, ends c = true

namespace DnsName

variable {alnum : Char → Bool} {dotted : Bool} {place next last : Place} {c : Char} {s part : List Char}

def isLabelChar (alnum : Char → Bool) (c : Char) : Bool := alnum c || c = '-'

/-- Letters, digits and hyphens, with a letter or digit at both ends. -/
def IsLabel (alnum : Char → Bool) (s : List Char) : Prop := IsFramed alnum (isLabelChar alnum) s

/-- Every part between the dots is a label. -/
def HasLabels (alnum : Char → Bool) (s : List Char) : Prop :=
  ∀ label ∈ s.splitOn '.', IsLabel alnum label

/-- The name without the dot that ends it, if there is one. -/
def withoutLastDot (s : List Char) : List Char :=
  if s.getLast? = some '.' then s.dropLast else s

/-! ## Characters -/

theorem isAlphanum_of_isLowerAlnum (h : isLowerAlnum c = true) : c.isAlphanum = true := by
  simp only [isLowerAlnum, Char.isAlphanum, Char.isAlpha, Bool.or_eq_true] at h ⊢
  tauto

theorem chars_of_step (h : step alnum place c = some last) :
    alnum c = true ∨ c = '-' ∨ c = '.' := by
  by_contra hnone
  obtain ⟨halnum, hhyphen, hdot⟩ : alnum c = false ∧ c ≠ '-' ∧ c ≠ '.' := by simpa using hnone
  cases place <;> simp [step.eq_def, halnum, hhyphen, hdot] at h

theorem chars_of_scan (h : scan alnum place s = some last) :
    ∀ c ∈ s, alnum c = true ∨ c = '-' ∨ c = '.' := by
  induction s generalizing place with
  | nil => simp
  | cons c s ih =>
    obtain ⟨next, hstep, hscan⟩ := Option.bind_eq_some_iff.mp h
    exact List.forall_mem_cons.mpr ⟨chars_of_step hstep, ih hscan⟩

theorem chars_of_isName (h : isName alnum dotted s = true) :
    ∀ c ∈ s, alnum c = true ∨ c = '-' ∨ c = '.' := by
  rw [isName] at h
  cases hscan : scan alnum .start s with
  | none => simp [hscan] at h
  | some last => exact chars_of_scan hscan

theorem ne_nil_of_isName (h : isName alnum dotted s = true) : s ≠ [] := by
  rintro rfl
  cases h

/-! ## A scan -/

/-- What the part up to the next dot has to be, seen from a place in it. -/
@[mk_iff]
structure Completes (alnum : Char → Bool) (place : Place) (part : List Char) : Prop where
  not_empty : place ≠ .inside → part ≠ []
  inside : ∀ c ∈ part, isLabelChar alnum c = true
  first : place = .start ∨ place = .afterDot → ∀ c ∈ part.head?, alnum c = true
  last : ∀ c ∈ part.getLast?, alnum c = true

theorem completes_nil : Completes alnum place [] ↔ place = .inside := by
  simp [completes_iff]

theorem completes_start : Completes alnum .start part ↔ IsLabel alnum part := by
  simp [completes_iff, IsLabel, isFramed_iff]

theorem completes_afterDot : Completes alnum .afterDot part ↔ IsLabel alnum part := by
  simp [completes_iff, IsLabel, isFramed_iff]

/-- What is behind a character has to be completed from the place that it leads to. -/
theorem completes_cons (hc : c ≠ '.') : Completes alnum place (c :: part) ↔
    ∃ next, step alnum place c = some next ∧ Completes alnum next part := by
  have hlast : (∀ d ∈ (c :: part).getLast?, alnum d = true) ↔
      (part = [] → alnum c = true) ∧ ∀ d ∈ part.getLast?, alnum d = true := by
    cases part with
    | nil => simp
    | cons d rest => simp [List.getLast?_cons]
  rw [completes_iff, hlast, List.forall_mem_cons]
  by_cases halnum : alnum c = true
  · simp [step, completes_iff, isLabelChar, halnum]
  by_cases hhyphen : c = '-'
  · subst hhyphen
    cases place <;> simp [step, completes_iff, isLabelChar, halnum, and_left_comm]
  · cases place <;> simp [step, isLabelChar, halnum, hhyphen, hc]

theorem step_dot (hdot : alnum '.' = false) :
    step alnum place '.' = some next ↔ place = .inside ∧ next = .afterDot := by
  cases place <;> simp [step, hdot, eq_comm]

theorem eq_dot_of_step (h : step alnum place c = some .afterDot) : c = '.' := by
  cases place <;> grind [step]

/-- A scan ends inside of a label if the part where it starts is completed and what stands behind
the next dot are labels. -/
theorem scan_inside (hdot : alnum '.' = false) {parts : List (List Char)}
    (h : s.splitOn '.' = part :: parts) : scan alnum place s = some .inside ↔
      Completes alnum place part ∧ ∀ label ∈ parts, IsLabel alnum label := by
  induction s generalizing place part parts with
  | nil =>
    obtain ⟨rfl, rfl⟩ := List.cons.inj h
    simp [scan, completes_nil]
  | cons c s ih =>
    obtain ⟨first, rest, hs⟩ := List.exists_cons_of_ne_nil (List.splitOn_ne_nil '.' s)
    rw [List.splitOn_cons_eq_if_modifyHead, hs] at h
    rw [scan, Option.bind_eq_some_iff]
    by_cases hc : c = '.'
    · rw [if_pos (by simpa using hc)] at h
      obtain ⟨rfl, rfl⟩ := List.cons.inj h
      rw [completes_nil, List.forall_mem_cons, ← completes_afterDot, ← ih hs, hc]
      simp [step_dot hdot]
    · rw [if_neg (by simpa using hc)] at h
      obtain ⟨rfl, rfl⟩ := List.cons.inj h
      simp only [completes_cons hc, ih hs, ← exists_and_right, and_assoc]

theorem scan_concat (alnum : Char → Bool) (place : Place) (s : List Char) (c : Char) :
    scan alnum place (s ++ [c]) = (scan alnum place s).bind fun place => step alnum place c := by
  induction s generalizing place with
  | nil => cases h : step alnum place c <;> simp [scan, h]
  | cons d s ih =>
    rw [List.cons_append, scan, scan, Option.bind_assoc]
    simp only [ih]

/-! ## Names -/

theorem isName_eq_true : isName alnum dotted s = true ↔
    scan alnum .start s = some .inside ∨ dotted = true ∧ scan alnum .start s = some .afterDot := by
  rw [isName]
  split <;> simp_all

/-- A name has nothing but labels between its dots. -/
theorem isName_iff_hasLabels (hdot : alnum '.' = false) :
    isName alnum false s = true ↔ HasLabels alnum s := by
  obtain ⟨part, parts, hs⟩ := List.exists_cons_of_ne_nil (List.splitOn_ne_nil '.' s)
  simp only [isName_eq_true, scan_inside hdot hs, HasLabels, hs, List.forall_mem_cons,
    completes_start, Bool.false_eq_true, false_and, or_false]

theorem withoutLastDot_concat (s : List Char) (c : Char) :
    withoutLastDot (s ++ [c]) = if c = '.' then s else s ++ [c] := by
  simp [withoutLastDot]

theorem withoutLastDots_concat (s : List Char) (c : Char) :
    withoutLastDots (s ++ [c]) = if c = '.' then withoutLastDots s else s ++ [c] := by
  rw [withoutLastDots, withoutLastDots]
  have h := List.rdropWhile_concat (fun c => decide (c = '.')) s c
  simpa only [decide_eq_true_eq, List.rdropWhile] using h

/-- Behind the last dot the scan is in no label, so the label in front of it has to be complete. -/
theorem isName_dotted (hdot : alnum '.' = false) (s : List Char) :
    isName alnum true s = isName alnum false (withoutLastDot s) := by
  rw [Bool.eq_iff_iff, isName_eq_true, isName_eq_true]
  induction s using List.reverseRecOn with
  | nil => simp [scan, withoutLastDot]
  | append_singleton s c _ =>
    rw [withoutLastDot_concat, scan_concat]
    split
    · rename_i hc
      simp [hc, step_dot hdot, Option.bind_eq_some_iff]
    · rename_i hc
      have hafter (x : Option Place) : (x.bind fun place => step alnum place c) ≠ some .afterDot := by
        intro h
        obtain ⟨place, -, hplace⟩ := Option.bind_eq_some_iff.mp h
        exact hc (eq_dot_of_step hplace)
      simp [hafter, scan_concat]

theorem not_dot_last (hdot : alnum '.' = false) (h : isName alnum false (s ++ [c]) = true) :
    c ≠ '.' := by
  rintro rfl
  obtain ⟨place, -, hstep⟩ : ∃ place, scan alnum .start s = some place ∧
      step alnum place '.' = some .inside := by
    simpa [isName_eq_true, scan_concat, Option.bind_eq_some_iff] using h
  simp [step_dot hdot] at hstep

/-- A name that does not end with a dot is not changed by taking dots from its end. -/
theorem withoutLastDots_eq_self (hdot : alnum '.' = false) (h : isName alnum false s = true) :
    withoutLastDots s = s := by
  induction s using List.reverseRecOn with
  | nil => rfl
  | append_singleton s c _ => rw [withoutLastDots_concat, if_neg (not_dot_last hdot h)]

theorem withoutLastDot_eq_self (hdot : alnum '.' = false) (h : isName alnum false s = true) :
    withoutLastDot s = s := by
  induction s using List.reverseRecOn with
  | nil => rfl
  | append_singleton s c _ => rw [withoutLastDot_concat, if_neg (not_dot_last hdot h)]

/-- At most one dot is taken from the end of a name. -/
theorem withoutLastDots_eq (hdot : alnum '.' = false)
    (h : isName alnum false (withoutLastDot s) = true) : withoutLastDots s = withoutLastDot s := by
  induction s using List.reverseRecOn with
  | nil => rfl
  | append_singleton s c _ =>
    rw [withoutLastDot_concat] at h ⊢
    rw [withoutLastDots_concat]
    by_cases hc : c = '.'
    · simp only [if_pos hc] at h ⊢
      exact withoutLastDots_eq_self hdot h
    · rw [if_neg hc, if_neg hc]

/-! ## What is accepted -/

theorem ascii_of_isLabel (halnum : ∀ c, alnum c = true → c.isAlphanum = true)
    (h : IsLabel alnum s) : ∀ c ∈ s, c.val ≤ 127 := by
  intro c hc
  have hinside := h.inside c hc
  rw [isLabelChar, Bool.or_eq_true, decide_eq_true_eq] at hinside
  obtain hinside | rfl := hinside
  · exact Text.ascii_of_isAlphanum (halnum c hinside)
  · decide

theorem lengthProblems_eq_nil (text : String) : lengthProblems text.toList = [] ↔
    1 ≤ text.utf8ByteSize ∧ text.utf8ByteSize ≤ 253 := by
  rw [lengthProblems, Text.byteCount_toList]
  by_cases hempty : text = ""
  · simp [hempty]
  · have hsize : text.utf8ByteSize ≠ 0 := by simpa using hempty
    rw [if_neg (by simpa using hempty), longestName]
    split
    · simp
      omega
    · simp
      omega

theorem labelProblems_eq_nil : labelProblems s = [] ↔
    ∀ label ∈ (withoutLastDots s).splitOn '.', Text.byteCount label ≤ 63 := by
  rw [labelProblems, labels, Text.splitAll_eq_splitOn]
  split
  · rename_i label hfound
    have hlong : longestLabel < Text.byteCount label := by simpa using List.find?_some hfound
    simp only [reduceCtorEq, false_iff, not_forall, not_le]
    exact ⟨label, List.mem_of_find?_eq_some hfound, hlong⟩
  · rename_i hnone
    simp only [true_iff]
    intro label hm
    exact not_lt.mp fun hlong => List.find?_eq_none.mp hnone label hm (decide_eq_true hlong)

/-- A text of 1 to 253 bytes, with a name of labels that have at most 63 characters each. -/
structure IsDnsName (alnum : Char → Bool) (text : String) (name : List Char) : Prop where
  not_empty : 1 ≤ text.utf8ByteSize
  short : text.utf8ByteSize ≤ 253
  labels : ∀ label ∈ name.splitOn '.', IsLabel alnum label ∧ label.length ≤ 63

/-- The name that a text is checked for. -/
def Format.name (format : Format) (s : List Char) : List Char :=
  if format.dotted then withoutLastDot s else s

theorem isName_iff {format : Format} (hdot : format.alnum '.' = false) :
    isName format.alnum format.dotted s = true ↔ HasLabels format.alnum (format.name s) := by
  rw [← isName_iff_hasLabels hdot, Format.name]
  cases format.dotted with
  | false => rfl
  | true => rw [isName_dotted hdot, if_pos rfl]

/-- The labels whose sizes are checked are those of the name. -/
theorem withoutLastDots_eq_name {format : Format} (hdot : format.alnum '.' = false)
    (h : HasLabels format.alnum (format.name s)) : withoutLastDots s = format.name s := by
  rw [← isName_iff_hasLabels hdot] at h
  rw [Format.name] at h ⊢
  split
  · rename_i hdotted
    exact withoutLastDots_eq hdot (by simpa [hdotted] using h)
  · rename_i hdotted
    exact withoutLastDots_eq_self hdot (by simpa [hdotted] using h)

theorem problems_eq_nil {format : Format} (text : String)
    (halnum : ∀ c, format.alnum c = true → c.isAlphanum = true) :
    problems format text = [] ↔ IsDnsName format.alnum text (format.name text.toList) := by
  have hdot : format.alnum '.' = false := by
    by_contra h
    exact absurd (halnum '.' (by simpa using h)) (by decide)
  have hmatch {problem : Problem} : (if isName format.alnum format.dotted text.toList then []
      else [problem]) = [] ↔ HasLabels format.alnum (format.name text.toList) := by
    rw [← isName_iff hdot]
    split <;> simp_all
  rw [problems, List.append_eq_nil_iff, List.append_eq_nil_iff, lengthProblems_eq_nil, hmatch,
    labelProblems_eq_nil]
  constructor
  · rintro ⟨⟨⟨hempty, hshort⟩, hlabels⟩, hsizes⟩
    refine ⟨hempty, hshort, fun label hm => ⟨hlabels label hm, ?_⟩⟩
    rw [withoutLastDots_eq_name hdot hlabels] at hsizes
    rw [← Text.byteCount_eq_length (ascii_of_isLabel halnum (hlabels label hm))]
    exact hsizes label hm
  · rintro ⟨hempty, hshort, hlabels⟩
    have hall := fun label hm => (hlabels label hm).1
    refine ⟨⟨⟨hempty, hshort⟩, hall⟩, ?_⟩
    rw [withoutLastDots_eq_name hdot hall]
    intro label hm
    rw [Text.byteCount_eq_length (ascii_of_isLabel halnum (hall label hm))]
    exact (hlabels label hm).2

theorem IsLabel.mono {upper : Char → Bool} (halnum : ∀ c, alnum c = true → upper c = true)
    (h : IsLabel alnum s) : IsLabel upper s := by
  refine ⟨h.not_empty, fun c hc => ?_, fun c hc => halnum c (h.first c hc),
    fun c hc => halnum c (h.last c hc)⟩
  have hinside := h.inside c hc
  rw [isLabelChar, Bool.or_eq_true] at hinside ⊢
  exact hinside.imp_left (halnum c)

/-- A name in lower case is one in any case, with no dot to be taken from its end. -/
theorem IsDnsName.anyCase {text : String} (h : IsDnsName isLowerAlnum text text.toList) :
    IsDnsName Char.isAlphanum text (withoutLastDot text.toList) := by
  have hname : isName isLowerAlnum false text.toList = true :=
    (isName_iff_hasLabels (by decide)).mpr fun label hm => (h.labels label hm).1
  rw [withoutLastDot_eq_self (by decide) hname]
  exact ⟨h.not_empty, h.short, fun label hm =>
    ⟨(h.labels label hm).1.mono fun c => isAlphanum_of_isLowerAlnum, (h.labels label hm).2⟩⟩

end DnsName

open DnsName (IsDnsName problems subdomain domain withoutLastDot isLowerAlnum)

/-- A name in lower case is accepted exactly if it has 1 to 253 bytes and every part between its
dots is a label, and so is a name in any case from whose end a dot may be taken. So every host name
is a domain, and an address. -/
theorem dns_names_accepted (text : String) :
    (problems subdomain text = [] ↔ IsDnsName isLowerAlnum text text.toList) ∧
    (problems domain text = [] ↔
      IsDnsName Char.isAlphanum text (withoutLastDot text.toList)) ∧
    (problems subdomain text = [] →
      problems domain text = [] ∧ Network.checkAddress text = .ok ()) := by
  have hlower : problems subdomain text = [] ↔ IsDnsName isLowerAlnum text text.toList :=
    DnsName.problems_eq_nil text fun c => DnsName.isAlphanum_of_isLowerAlnum
  have hdomain : problems domain text = [] ↔
      IsDnsName Char.isAlphanum text (withoutLastDot text.toList) :=
    DnsName.problems_eq_nil text fun c => id
  refine ⟨hlower, hdomain, fun h => ?_⟩
  have hany : problems domain text = [] := hdomain.mpr (hlower.mp h).anyCase
  refine ⟨hany, ?_⟩
  rw [Network.checkAddress, hany, List.isEmpty_nil, Bool.or_true, if_pos rfl]

theorem host_name_is_address :
    problems subdomain "cp-1.lab.example.com" = [] ∧
      problems domain "cp-1.lab.example.com" = [] ∧
      Network.checkAddress "cp-1.lab.example.com" = .ok () := by
  have h : problems subdomain "cp-1.lab.example.com" = [] := by decide
  exact ⟨h, (dns_names_accepted _).2.2 h⟩

end ClusterConfig
