import Mathlib
import ClusterConfig.Validation.Issue
import ClusterConfig.Proofs.Text.Parts

/-!
# Paths of elements

A quoted text is read back character by character, since no character is written as the beginning of
another. So the path of an element can be taken apart again into the steps that lead to it: a field
ends in front of the next dot or bracket, and whatever stands in a key, its closing quote is found.
-/

set_option autoImplicit false

namespace ClusterConfig

/-! ## Digits -/

namespace Text

variable {b m n : ℕ} {c d : Char} {s t u v : List Char}

theorem digitChar_injective : ∀ m < 16, ∀ n < 16, Nat.digitChar m = Nat.digitChar n → m = n := by
  decide

theorem mem_toDigits (hb : 1 < b) (h : c ∈ Nat.toDigits b n) : ∃ d < b, c = Nat.digitChar d := by
  induction n using Nat.base_induction b hb with
  | single m hm =>
    rw [Nat.toDigits_of_lt_base hm, List.mem_singleton] at h
    exact ⟨m, hm, h⟩
  | digit m k hk hm ih =>
    rw [← Nat.toDigits_append_toDigits hb hm hk, Nat.toDigits_of_lt_base hk, List.mem_append,
      List.mem_singleton] at h
    obtain h | h := h
    · exact ih h
    · exact ⟨k, hk, h⟩

theorem not_mem_toDigits (hb : 1 < b) (h : ∀ d < b, c ≠ Nat.digitChar d) (n : ℕ) :
    c ∉ Nat.toDigits b n := fun hm =>
  let ⟨d, hd, heq⟩ := mem_toDigits hb hm
  h d hd heq

theorem toDigits_inj (hb : 1 < b) (hmost : b ≤ 16) (h : Nat.toDigits b m = Nat.toDigits b n) :
    m = n := by
  have hdigit {m n : ℕ} (hm : m < b) (hn : n < b) (h : Nat.digitChar m = Nat.digitChar n) : m = n :=
    digitChar_injective m (by omega) n (by omega) h
  -- a number below the base has one digit, any other one has more
  have hlong (c : Char) (k : ℕ) (d : Char) : [c] ≠ Nat.toDigits b k ++ [d] := fun heq => by
    have hlength := congrArg List.length heq
    have hpos := Nat.length_toDigits_pos (b := b) (n := k)
    simp only [List.length_append, List.length_singleton] at hlength
    omega
  induction m using Nat.strong_induction_on generalizing n with
  | _ m ih =>
    rw [Nat.toDigits_eq_if hb, Nat.toDigits_eq_if (n := n) hb] at h
    split at h
    · rename_i hm
      split at h
      · rename_i hn
        exact hdigit hm hn (List.singleton_inj.mp h)
      · exact absurd h (hlong _ _ _)
    · rename_i hm
      split at h
      · exact absurd h.symm (hlong _ _ _)
      · have hsmaller : m / b < m := Nat.div_lt_self (by omega) hb
        obtain ⟨hfront, hlast⟩ := List.append_inj' h rfl
        have hmod := hdigit (Nat.mod_lt m (by omega)) (Nat.mod_lt n (by omega))
          (List.singleton_inj.mp hlast)
        rw [← Nat.div_add_mod m b, ← Nat.div_add_mod n b, ih _ hsmaller hfront, hmod]

/-- What stands in front of the first mark is found again, and what stands behind it. -/
theorem append_mark_inj {mark : Char} (hs : mark ∉ s) (ht : mark ∉ t)
    (h : s ++ mark :: u = t ++ mark :: v) : s = t ∧ u = v :=
  Prod.mk.inj (Option.some.inj ((splitFirst?_eq_some_iff.mpr ⟨rfl, hs⟩).symm.trans
    (splitFirst?_eq_some_iff.mpr ⟨h, ht⟩)))

/-! ## Quoted characters -/

/-- The characters that are escaped by a letter or by themselves. -/
def escapes : List (Char × Char) :=
  [('"', '"'), ('\\', '\\'), ('\n', 'n'), ('\r', 'r'), ('\t', 't'), ('\x00', '0')]

/-- How a character may be written between quotes. -/
inductive Quoted (c : Char) : List Char → Prop
  | plain (hquote : c ≠ '"') (hslash : c ≠ '\\') : Quoted c [c]
  | escaped {x : Char} (h : (c, x) ∈ escapes) : Quoted c ['\\', x]
  | numbered : Quoted c (['\\', 'u', '\x7b'] ++ Nat.toDigits 16 c.toNat ++ ['\x7d'])

theorem quoted_quoteChar (c : Char) : Quoted c (quoteChar c) := by
  rw [quoteChar]
  split_ifs with hquote hslash hnewline hreturn htab hnull hshown
  · exact .escaped (by simp [escapes, hquote])
  · exact .escaped (by simp [escapes, hslash])
  · exact .escaped (by simp [escapes, hnewline])
  · exact .escaped (by simp [escapes, hreturn])
  · exact .escaped (by simp [escapes, htab])
  · have hc : c = '\x00' := Char.ext (UInt32.toNat_inj.mp hnull)
    exact .escaped (by simp [escapes, hc])
  · exact .plain hquote hslash
  · exact .numbered

theorem escapes_injective : ∀ p ∈ escapes, ∀ q ∈ escapes, p.2 = q.2 → p.1 = q.1 := by decide

theorem not_numbered_of_escapes : ∀ p ∈ escapes, p.2 ≠ 'u' := by decide

/-- No character is written as the beginning of another. -/
theorem Quoted.append_inj (hc : Quoted c s) (hd : Quoted d t) (h : s ++ u = t ++ v) :
    c = d ∧ u = v := by
  cases hc with
  | plain _ hslash =>
    cases hd with
    | plain => exact List.cons.inj h
    | escaped => exact absurd (List.cons.inj h).1 hslash
    | numbered => exact absurd (List.cons.inj h).1 hslash
  | @escaped x hx =>
    cases hd with
    | plain _ hslash => exact absurd (List.cons.inj h).1.symm hslash
    | @escaped y hy =>
      obtain ⟨rfl, hrest⟩ := List.cons.inj (List.cons.inj h).2
      exact ⟨escapes_injective _ hx _ hy rfl, hrest⟩
    | numbered =>
      exact absurd (List.cons.inj (List.cons.inj h).2).1 (not_numbered_of_escapes _ hx)
  | numbered =>
    cases hd with
    | plain _ hslash => exact absurd (List.cons.inj h).1.symm hslash
    | @escaped y hy =>
      exact absurd (List.cons.inj (List.cons.inj h).2).1.symm (not_numbered_of_escapes _ hy)
    | numbered =>
      have hdigits : Nat.toDigits 16 c.toNat ++ '\x7d' :: u =
          Nat.toDigits 16 d.toNat ++ '\x7d' :: v := by
        simpa [List.append_assoc] using h
      have hbrace := not_mem_toDigits (b := 16) (c := '\x7d') (by decide) (by decide)
      obtain ⟨hsame, hrest⟩ := append_mark_inj (hbrace _) (hbrace _) hdigits
      have hcode := toDigits_inj (by decide) (by decide) hsame
      exact ⟨Char.ext (UInt32.toNat_inj.mp hcode), hrest⟩

theorem Quoted.head (h : Quoted c s) : ∃ x rest, s = x :: rest ∧ x ≠ '"' := by
  cases h with
  | plain hquote => exact ⟨_, _, rfl, hquote⟩
  | escaped => exact ⟨_, _, rfl, by decide⟩
  | numbered => exact ⟨_, _, rfl, by decide⟩

/-- The closing quote of a text is found, whatever the text. -/
theorem quoted_append_inj
    (h : s.flatMap quoteChar ++ '"' :: u = t.flatMap quoteChar ++ '"' :: v) : s = t ∧ u = v := by
  induction s generalizing t with
  | nil =>
    cases t with
    | nil => exact ⟨rfl, (List.cons.inj h).2⟩
    | cons d t =>
      obtain ⟨x, rest, hx, hne⟩ := (quoted_quoteChar d).head
      rw [List.flatMap_cons, hx] at h
      exact absurd (List.cons.inj h).1.symm hne
  | cons c s ih =>
    cases t with
    | nil =>
      obtain ⟨x, rest, hx, hne⟩ := (quoted_quoteChar c).head
      rw [List.flatMap_cons, hx] at h
      exact absurd (List.cons.inj h).1 hne
    | cons d t =>
      rw [List.flatMap_cons, List.flatMap_cons, List.append_assoc, List.append_assoc] at h
      obtain ⟨rfl, hrest⟩ := (quoted_quoteChar c).append_inj (quoted_quoteChar d) h
      obtain ⟨rfl, hend⟩ := ih hrest
      exact ⟨rfl, hend⟩

end Text

/-! ## Steps of a path -/

namespace Validation

variable {p q : Place} {s t : List Char} {a b : Segment} {steps others : List Segment}

/-- A step whose text can be told from those around it: a field has a name, without dots and opening
brackets. -/
def Segment.IsPlain : Segment → Prop
  | .field name => name ≠ "" ∧ '.' ∉ name.toList ∧ '[' ∉ name.toList
  | _ => True

@[simp]
theorem Segment.isPlain_field {name : String} : (Segment.field name).IsPlain ↔
    name ≠ "" ∧ '.' ∉ name.toList ∧ '[' ∉ name.toList :=
  .rfl

/-- All fields on the way have such names. -/
def Place.IsPlain (place : Place) : Prop := ∀ step ∈ place.segments, step.IsPlain

/-- The text of a step behind others. -/
def Segment.chars : Segment → List Char
  | .field name => '.' :: name.toList
  | .index n => '[' :: (Nat.toDigits 10 n ++ [']'])
  | .key text => '[' :: '"' :: (text.toList.flatMap Text.quoteChar ++ ['"', ']'])

/-- The end of a path, or what another step starts with. -/
def StepEnds (s : List Char) : Prop := ∀ c, s.head? = some c → c = '.' ∨ c = '['

theorem stepEnds_chars (steps : List Segment) : StepEnds (steps.flatMap Segment.chars) := by
  cases steps with
  | nil => simp [StepEnds]
  | cons step rest => cases step <;> simp [StepEnds, Segment.chars]

/-- A name ends in front of the next step. -/
theorem name_append_inj {name other : List Char} (hname : ∀ c ∈ name, c ≠ '.' ∧ c ≠ '[')
    (hother : ∀ c ∈ other, c ≠ '.' ∧ c ≠ '[') (hs : StepEnds s) (ht : StepEnds t)
    (h : name ++ s = other ++ t) : name = other ∧ s = t := by
  induction name generalizing other with
  | nil =>
    cases other with
    | nil => exact ⟨rfl, h⟩
    | cons c other =>
      obtain ⟨hdot, hbracket⟩ := hother c List.mem_cons_self
      exact absurd (hs c (congrArg List.head? h)) (by simp [hdot, hbracket])
  | cons c name ih =>
    obtain ⟨⟨hdot, hbracket⟩, hrest⟩ := List.forall_mem_cons.mp hname
    cases other with
    | nil => exact absurd (ht c (congrArg List.head? h).symm) (by simp [hdot, hbracket])
    | cons d other =>
      obtain ⟨rfl, hmore⟩ := List.cons.inj h
      obtain ⟨rfl, hend⟩ := ih hrest (List.forall_mem_cons.mp hother).2 hmore
      exact ⟨rfl, hend⟩

theorem Segment.IsPlain.chars {name : String} (h : (Segment.field name).IsPlain) :
    ∀ c ∈ name.toList, c ≠ '.' ∧ c ≠ '[' := by
  intro c hc
  exact ⟨fun hdot => h.2.1 (hdot ▸ hc), fun hbracket => h.2.2 (hbracket ▸ hc)⟩

theorem index_chars_append_ne (n : ℕ) (text : String) :
    (Segment.index n).chars ++ s ≠ (Segment.key text).chars ++ t := by
  intro h
  have hquote := Text.not_mem_toDigits (b := 10) (c := '"') (by decide) (by decide) n
  have hinner : Nat.toDigits 10 n ++ (']' :: s) =
      '"' :: (text.toList.flatMap Text.quoteChar ++ ('"' :: ']' :: t)) := by
    simpa [Segment.chars] using h
  cases hdigits : Nat.toDigits 10 n with
  | nil => exact Nat.toDigits_ne_nil hdigits
  | cons c rest =>
    rw [hdigits] at hinner hquote
    exact hquote ((List.cons.inj hinner).1 ▸ List.mem_cons_self)

/-- What stands behind a step is found, whatever the step. -/
theorem Segment.chars_append_inj (ha : a.IsPlain) (hb : b.IsPlain) (hs : StepEnds s)
    (ht : StepEnds t) (h : a.chars ++ s = b.chars ++ t) : a = b ∧ s = t := by
  cases a with
  | field name =>
    cases b with
    | field other =>
      obtain ⟨hname, hrest⟩ := name_append_inj ha.chars hb.chars hs ht (List.cons.inj h).2
      exact ⟨congrArg Segment.field (String.toList_inj.mp hname), hrest⟩
    | index => exact absurd (List.cons.inj h).1 (by decide)
    | key => exact absurd (List.cons.inj h).1 (by decide)
  | index n =>
    cases b with
    | field => exact absurd (List.cons.inj h).1 (by decide)
    | index m =>
      have hbracket := Text.not_mem_toDigits (b := 10) (c := ']') (by decide) (by decide)
      have hinner : Nat.toDigits 10 n ++ ']' :: s = Nat.toDigits 10 m ++ ']' :: t := by
        simpa [Segment.chars] using h
      obtain ⟨hdigits, hrest⟩ := Text.append_mark_inj (hbracket n) (hbracket m) hinner
      exact ⟨congrArg Segment.index (Text.toDigits_inj (by decide) (by decide) hdigits), hrest⟩
    | key text => exact absurd h (index_chars_append_ne n text)
  | key text =>
    cases b with
    | field => exact absurd (List.cons.inj h).1 (by decide)
    | index m => exact absurd h.symm (index_chars_append_ne m text)
    | key other =>
      have hinner : text.toList.flatMap Text.quoteChar ++ '"' :: ']' :: s =
          other.toList.flatMap Text.quoteChar ++ '"' :: ']' :: t := by
        simpa [Segment.chars] using h
      obtain ⟨htext, hrest⟩ := Text.quoted_append_inj hinner
      exact ⟨congrArg Segment.key (String.toList_inj.mp htext), (List.cons.inj hrest).2⟩

/-- The steps are found one after the other. -/
theorem flatMap_chars_inj (hp : ∀ step ∈ steps, step.IsPlain) (ho : ∀ step ∈ others, step.IsPlain)
    (h : steps.flatMap Segment.chars = others.flatMap Segment.chars) : steps = others := by
  have hne (step : Segment) (rest : List Segment) :
      (step :: rest).flatMap Segment.chars ≠ [] := by
    cases step <;> simp [Segment.chars]
  induction steps generalizing others with
  | nil =>
    cases others with
    | nil => rfl
    | cons step rest => exact absurd h.symm (hne step rest)
  | cons a steps ih =>
    cases others with
    | nil => exact absurd h (hne a steps)
    | cons b others =>
      obtain ⟨ha, hsteps⟩ := List.forall_mem_cons.mp hp
      obtain ⟨hb, hothers⟩ := List.forall_mem_cons.mp ho
      rw [List.flatMap_cons, List.flatMap_cons] at h
      obtain ⟨rfl, hrest⟩ := Segment.chars_append_inj ha hb (stepEnds_chars steps)
        (stepEnds_chars others) h
      rw [ih hsteps hothers hrest]

/-! ## The path of a place -/

/-- The text of a step at the beginning of a path, where a field has no dot. -/
def Segment.firstChars : Segment → List Char
  | .field name => name.toList
  | step => step.chars

theorem append_toList_of_ne_empty {path : String} (h : path ≠ "") (step : Segment) :
    (Place.append path step).toList = path.toList ++ step.chars := by
  cases step with
  | field name => simp [Place.append, h, Segment.chars]
  | index n => simp [Place.append, Segment.chars]
  | key text => simp [Place.append, Segment.chars, Text.quoted]

theorem append_empty_toList (step : Segment) :
    (Place.append "" step).toList = step.firstChars := by
  cases step with
  | field name => rfl
  | index n => simp [Place.append, Segment.firstChars, Segment.chars]
  | key text => simp [Place.append, Segment.firstChars, Segment.chars, Text.quoted]

theorem foldl_append_toList {path : String} (h : path ≠ "") (steps : List Segment) :
    (steps.foldl Place.append path).toList = path.toList ++ steps.flatMap Segment.chars := by
  have hne (step : Segment) : step.chars ≠ [] := by cases step <;> simp [Segment.chars]
  induction steps generalizing path with
  | nil => simp
  | cons step rest ih =>
    have happend := append_toList_of_ne_empty h step
    have hnonempty : Place.append path step ≠ "" := fun hempty => by
      simp [hempty, hne] at happend
    rw [List.foldl_cons, ih hnonempty, happend, List.flatMap_cons, List.append_assoc]

theorem Segment.IsPlain.firstChars_ne_nil (h : a.IsPlain) : a.firstChars ≠ [] := by
  cases a with
  | field name => simpa [Segment.firstChars] using h.1
  | index n => simp [Segment.firstChars, Segment.chars]
  | key text => simp [Segment.firstChars, Segment.chars]

theorem path_toList_cons (ha : a.IsPlain) (rest : List Segment) :
    (Place.path ⟨a :: rest⟩).toList = a.firstChars ++ rest.flatMap Segment.chars := by
  have hfirst := append_empty_toList a
  have hne : Place.append "" a ≠ "" := fun hempty =>
    ha.firstChars_ne_nil (by rw [← hfirst, hempty]; rfl)
  rw [Place.path, List.foldl_cons, foldl_append_toList hne, hfirst]

theorem Segment.IsPlain.append_ne_bracket {name : String} (h : (Segment.field name).IsPlain) :
    name.toList ++ s ≠ '[' :: t := by
  intro hstart
  cases hname : name.toList with
  | nil => exact h.1 (String.toList_eq_nil_iff.mp hname)
  | cons c rest =>
    rw [hname] at hstart
    exact (h.chars c (hname ▸ List.mem_cons_self)).2 (List.cons.inj hstart).1

/-- The missing dot is no loss: only a field starts otherwise than with a bracket. -/
theorem chars_append_of_firstChars (ha : a.IsPlain) (hb : b.IsPlain)
    (h : a.firstChars ++ s = b.firstChars ++ t) : a.chars ++ s = b.chars ++ t := by
  cases a with
  | field name =>
    cases b with
    | field other => exact congrArg (List.cons '.') h
    | index m => exact absurd h ha.append_ne_bracket
    | key other => exact absurd h ha.append_ne_bracket
  | index n =>
    cases b with
    | field other => exact absurd h.symm hb.append_ne_bracket
    | index m => exact h
    | key other => exact h
  | key text =>
    cases b with
    | field other => exact absurd h.symm hb.append_ne_bracket
    | index m => exact h
    | key other => exact h

/-- The path of a place tells the place. -/
theorem Place.path_injective (hp : p.IsPlain) (hq : q.IsPlain) (h : p.path = q.path) : p = q := by
  obtain ⟨steps⟩ := p
  obtain ⟨others⟩ := q
  have hchars := congrArg String.toList h
  cases steps with
  | nil =>
    cases others with
    | nil => rfl
    | cons b others =>
      have hb := (List.forall_mem_cons.mp hq).1
      rw [path_toList_cons hb] at hchars
      exact absurd (List.append_eq_nil_iff.mp hchars.symm).1 hb.firstChars_ne_nil
  | cons a steps =>
    have ha := (List.forall_mem_cons.mp hp).1
    cases others with
    | nil =>
      rw [path_toList_cons ha] at hchars
      exact absurd (List.append_eq_nil_iff.mp hchars).1 ha.firstChars_ne_nil
    | cons b others =>
      have hb := (List.forall_mem_cons.mp hq).1
      rw [path_toList_cons ha, path_toList_cons hb] at hchars
      exact congrArg Place.mk (flatMap_chars_inj hp hq (chars_append_of_firstChars ha hb hchars))

end Validation

end ClusterConfig
