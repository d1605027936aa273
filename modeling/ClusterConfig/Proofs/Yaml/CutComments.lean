import Mathlib.Data.List.Infix
import ClusterConfig.Yaml.Cursor

/-!
# Texts with comments cut out

A text and what is left of it once some of its comments are gone, each with the blanks before it. The
line break behind a comment stays, so every line stays in its place; and where no comment is cut off
right behind a character, the same word follows it in both texts.
-/

set_option autoImplicit false

namespace ClusterConfig.Yaml

variable {places : List Nat} {prev : Option Char} {c : Char} {r r' s t x y : List Char}

/-! ## The word at the start of a text -/

/-- The characters up to a blank, a line break or the end. -/
def firstWord (s : List Char) : List Char := s.takeWhile fun c => !isSpaceOrBreak c

@[simp]
theorem firstWord_nil : firstWord [] = [] := rfl

theorem firstWord_cons (c : Char) (s : List Char) :
    firstWord (c :: s) = if isSpaceOrBreak c then [] else c :: firstWord s := by
  cases h : isSpaceOrBreak c <;> simp [firstWord, h]

theorem endsWord_eq (s : List Char) : endsWord s = (firstWord s).isEmpty := by
  cases s with
  | nil => rfl
  | cons c s => cases h : isSpaceOrBreak c <;> simp [endsWord, firstWord_cons, h]

theorem endsWord_congr (h : firstWord r' = firstWord r) : endsWord r' = endsWord r := by
  rw [endsWord_eq, endsWord_eq, h]

theorem firstWord_append (h : firstWord r' = firstWord r) (x : List Char) :
    firstWord (x ++ r') = firstWord (x ++ r) := by
  induction x with
  | nil => exact h
  | cons c x ih => simp only [List.cons_append, firstWord_cons, ih]

theorem firstWord_append_of_space {e : Char} (he : e ∈ x) (hs : isSpaceOrBreak e = true)
    (r r' : List Char) : firstWord (x ++ r') = firstWord (x ++ r) := by
  induction x with
  | nil => cases he
  | cons c x ih =>
    rw [List.cons_append, List.cons_append, firstWord_cons, firstWord_cons]
    cases he with
    | head => rw [if_pos hs, if_pos hs]
    | tail _ he => rw [ih he]

/-- What only holds of characters of words holds of the first characters of both texts or of
neither. -/
theorem head?_any_congr {p : Char → Bool} (hp : ∀ c, p c → isSpaceOrBreak c = false)
    (h : firstWord r' = firstWord r) : r'.head?.any p = r.head?.any p := by
  have hword (s : List Char) : s.head?.any p = (firstWord s).head?.any p := by
    cases s with
    | nil => rfl
    | cons c s =>
      cases hc : isSpaceOrBreak c with
      | false => simp [firstWord_cons, hc]
      | true =>
        have hn : p c = false := by
          by_contra hn
          simp [hp c (by simpa using hn)] at hc
        simp [firstWord_cons, hc, hn]
  rw [hword r', h, ← hword r]

theorem boundary?_eq (c : Cursor) :
    boundary? c =
      if c.column = 0 then
        if firstWord c.rest = ['-', '-', '-'] then some .start
        else if firstWord c.rest = ['.', '.', '.'] then some .stop else none
      else none := by
  have hword {a : Char} (ha : isSpaceOrBreak a = false) (s : List Char) :
      firstWord s = [a, a, a] ↔ ∃ q, s = a :: a :: a :: q ∧ endsWord q = true := by
    constructor
    · intro h
      match s with
      | [] => simp at h
      | [b] => by_cases hb : isSpaceOrBreak b <;> simp [firstWord_cons, hb] at h
      | [b, d] =>
        by_cases hb : isSpaceOrBreak b <;> by_cases hd : isSpaceOrBreak d <;>
          simp [firstWord_cons, hb, hd] at h
      | b :: d :: e :: q =>
        by_cases hb : isSpaceOrBreak b <;> by_cases hd : isSpaceOrBreak d <;>
          by_cases he : isSpaceOrBreak e <;> simp [firstWord_cons, hb, hd, he] at h
        obtain ⟨rfl, rfl, rfl, hq⟩ := h
        exact ⟨q, rfl, by simp [endsWord_eq, hq]⟩
    · rintro ⟨q, rfl, hq⟩
      simpa [firstWord_cons, ha, endsWord_eq] using hq
  obtain ⟨s, index, line, column⟩ := c
  rw [boundary?]
  by_cases hc : column = 0
  · simp only [hc, if_true]
    split
    · rename_i q
      cases hq : endsWord q <;>
        simp [firstWord_cons, isSpaceOrBreak, isSpaceOrTab, isLineBreak, isSeparator, endsWord_eq]
          at hq ⊢ <;> simp [hq]
    · rename_i q
      cases hq : endsWord q <;>
        simp [firstWord_cons, isSpaceOrBreak, isSpaceOrTab, isLineBreak, isSeparator, endsWord_eq]
          at hq ⊢ <;> simp [hq]
    · rename_i hstart hstop
      rw [if_neg, if_neg]
      · rintro h
        obtain ⟨q, hq, -⟩ := (hword (by decide) s).mp h
        exact hstop q hq
      · rintro h
        obtain ⟨q, hq, -⟩ := (hword (by decide) s).mp h
        exact hstart q hq
  · simp [hc]

theorem boundary?_congr {c d : Cursor} (h : firstWord d.rest = firstWord c.rest)
    (hc : d.column = c.column) : boundary? d = boundary? c := by
  rw [boundary?_eq, boundary?_eq, h, hc]

/-! ## Cutting -/

/-- A comment may be cut off with the blanks before it: blanks separate it from the character before
unless it starts its line. A carriage return would make one line break with the line feed behind. -/
def CutsAfter (prev : Option Char) (blanks : List Char) : Prop :=
  ∀ c ∈ prev, c ≠ '\n' → c ≠ '\r' ∧ blanks ≠ []

/-- The end of a comment: the end of the text, or a line feed with or without a carriage return. -/
def EndsComment (cr rest : List Char) : Prop :=
  (cr = [] ∧ rest = []) ∨ ((cr = [] ∨ cr = ['\r']) ∧ rest.head? = some '\n')

/-- What is left of a text that follows the character `prev` once some comments are cut out of it.
Each of these starts where as many characters are left as one of the `places` tells. -/
inductive Uncommented (places : List Nat) : Option Char → List Char → List Char → Prop
  | nil {prev : Option Char} : Uncommented places prev [] []
  | keep {prev : Option Char} {c : Char} {s t : List Char} (h : Uncommented places (some c) s t) :
      Uncommented places prev (c :: s) (c :: t)
  | cut {prev : Option Char} {blanks text cr s t : List Char}
      (hb : ∀ c ∈ blanks, isSpaceOrTab c) (hprev : CutsAfter prev blanks)
      (ht : ∀ c ∈ text, isLineBreak c = false) (he : EndsComment cr s)
      (hp : ('#' :: (text ++ (cr ++ s))).length ∈ places) (h : Uncommented places (some '#') s t) :
      Uncommented places prev (blanks ++ '#' :: (text ++ (cr ++ s))) t

/-- A comment is cut off at the start of a text. -/
def CutHere (places : List Nat) (prev : Option Char) (blanks r t : List Char) : Prop :=
  ∃ text cr s, r = '#' :: (text ++ (cr ++ s)) ∧ CutsAfter prev blanks ∧
    (∀ c ∈ text, isLineBreak c = false) ∧ EndsComment cr s ∧ r.length ∈ places ∧
    Uncommented places (some '#') s t

/-- A comment that is cut off starts at one of the places. -/
theorem CutHere.mem_places {blanks : List Char} (h : CutHere places prev blanks r t) :
    r.length ∈ places := by
  obtain ⟨text, cr, s, -, -, -, -, hmem, -⟩ := h
  exact hmem

theorem Uncommented.cons_cases (h : Uncommented places prev (c :: s) t) :
    (∃ t', t = c :: t' ∧ Uncommented places (some c) s t') ∨
      ∃ blanks r, c :: s = blanks ++ r ∧ (∀ b ∈ blanks, isSpaceOrTab b) ∧
        CutHere places prev blanks r t := by
  generalize hs : c :: s = u at h
  cases h with
  | nil => cases hs
  | keep h =>
    cases hs
    exact .inl ⟨_, rfl, h⟩
  | cut hb hprev ht he hp h =>
    exact .inr ⟨_, _, rfl, hb, _, _, _, rfl, hprev, ht, he, hp, h⟩

theorem Uncommented.nil_eq (h : Uncommented places prev [] t) : t = [] := by
  generalize hs : ([] : List Char) = u at h
  cases h with
  | nil => rfl
  | keep h => cases hs
  | cut hb hprev ht he hp h => simp at hs

/-- The text behind a cut comment starts with a line feed or is over. -/
theorem EndsComment.head {cr rest : List Char} (h : EndsComment cr rest)
    (hu : Uncommented places prev rest t) : t = [] ∧ rest = [] ∨
      ∃ s t', rest = '\n' :: s ∧ t = '\n' :: t' ∧ Uncommented places (some '\n') s t' := by
  obtain ⟨-, rfl⟩ | ⟨-, hs⟩ := h
  · exact .inl ⟨hu.nil_eq, rfl⟩
  · obtain ⟨s, rfl⟩ : ∃ s, rest = '\n' :: s := by
      cases rest with
      | nil => cases hs
      | cons c s =>
        cases hs
        exact ⟨s, rfl⟩
    obtain ⟨t', rfl, ht⟩ | ⟨blanks, r, hr, hb, hcut⟩ := hu.cons_cases
    · exact .inr ⟨s, t', rfl, rfl, ht⟩
    · obtain ⟨text, cr', s', rfl, -⟩ := hcut
      cases blanks with
      | nil => simp at hr
      | cons b blanks =>
        have hnl := hb b (by simp)
        simp only [List.cons_append, List.cons.injEq] at hr
        simp [← hr.1, isSpaceOrTab] at hnl

theorem CutHere.head {blanks : List Char} (h : CutHere places prev blanks r t) :
    t = [] ∨ ∃ t', t = '\n' :: t' := by
  obtain ⟨text, cr, s, -, -, -, he, -, hu⟩ := h
  obtain ⟨rfl, -⟩ | ⟨s', t', -, rfl, -⟩ := he.head hu
  · exact .inl rfl
  · exact .inr ⟨t', rfl⟩

theorem CutHere.firstWord_eq {blanks : List Char} (h : CutHere places prev blanks r t) :
    firstWord t = [] := by
  obtain rfl | ⟨t', rfl⟩ := h.head <;> rfl

/-- Behind a character of a word the same word goes on, cut or not. -/
theorem Uncommented.firstWord_eq (h : Uncommented places (some c) r t)
    (hc : isSpaceOrBreak c = false) : firstWord t = firstWord r := by
  induction r generalizing c t with
  | nil => rw [h.nil_eq]
  | cons d s ih =>
    obtain ⟨t', rfl, h'⟩ | ⟨blanks, r, hr, hb, hcut⟩ := h.cons_cases
    · cases hd : isSpaceOrBreak d with
      | true => simp [firstWord_cons, hd]
      | false => simp [firstWord_cons, hd, ih h' hd]
    · rw [hcut.firstWord_eq, hr]
      obtain ⟨text, cr, s', rfl, hprev, -⟩ := hcut
      cases blanks with
      | nil =>
        refine absurd rfl (hprev c rfl ?_).2
        rintro rfl
        cases hc
      | cons b blanks =>
        have hblank : isSpaceOrBreak b = true := by
          rw [isSpaceOrBreak, hb b (by simp), Bool.true_or]
        simp [firstWord_cons, hblank]

/-- Text without a place in it stays as it is, but for blanks at its end that stand before a comment
behind it. -/
theorem Uncommented.split (h : Uncommented places prev (x ++ r) t)
    (hp : ∀ p ∈ places, p ≤ (x ++ r).length → p ≤ r.length) :
    (∃ r', t = x ++ r' ∧ Uncommented places (x.getLast?.or prev) r r') ∨
      ∃ y blanks more rest r', x = y ++ blanks ∧ blanks ≠ [] ∧ r = more ++ rest ∧ t = y ++ r' ∧
        (∀ c ∈ blanks ++ more, isSpaceOrTab c) ∧
        CutHere places (y.getLast?.or prev) (blanks ++ more) rest r' := by
  induction x generalizing prev t with
  | nil => exact .inl ⟨t, rfl, h⟩
  | cons c x ih =>
    obtain ⟨t', rfl, h'⟩ | ⟨blanks, q, hq, hb, hcut⟩ := h.cons_cases
    · have hlast (y : List Char) : (c :: y).getLast?.or prev = y.getLast?.or (some c) := by
        rw [List.getLast?_cons]
        cases y.getLast? <;> rfl
      have hp' : ∀ p ∈ places, p ≤ (x ++ r).length → p ≤ r.length := fun p hm hle =>
        hp p hm (hle.trans (by simp))
      obtain ⟨r', rfl, hr⟩ | ⟨y, blanks, more, rest, r', rfl, hne, rfl, rfl, hb, hcut⟩ := ih h' hp'
      · exact .inl ⟨r', rfl, by rwa [hlast]⟩
      · exact .inr ⟨c :: y, blanks, more, rest, r', rfl, hne, rfl, rfl, hb, by rwa [hlast]⟩
    · -- the place of the comment is behind the text, so the text is a part of the blanks
      obtain ⟨text, cr, s, hqs, hprev, ht, he, hmem, hu⟩ := hcut
      have hxq : (c :: x) ++ r = blanks ++ q := hq
      have hlen := congrArg List.length hxq
      have hle : q.length ≤ r.length := by
        apply hp _ hmem
        simp only [List.cons_append, List.length_cons, List.length_append] at hlen ⊢
        omega
      obtain ⟨more, rfl, hr⟩ | ⟨more, hx, rfl⟩ :=
        List.append_eq_append_iff.mp hxq
      · exact .inr ⟨[], c :: x, more, q, t, rfl, by simp, hr, rfl, hb,
          text, cr, s, hqs, hprev, ht, he, hmem, hu⟩
      · obtain rfl : more = [] := by
          simp only [List.length_append] at hle
          exact List.length_eq_zero_iff.mp (by omega)
        refine .inr ⟨[], c :: x, [], r, t, rfl, by simp, rfl, rfl, ?_, ?_⟩
        · rw [hx]
          simpa using hb
        · rw [hx]
          simp only [List.append_nil] at hprev ⊢
          exact ⟨text, cr, s, hqs, hprev, ht, he, hmem, hu⟩

/-- Text without a place in it that does not end in a blank stays. -/
theorem Uncommented.split_last (h : Uncommented places prev (x ++ r) t)
    (hlast : ∃ c ∈ x.getLast?, isSpaceOrTab c = false)
    (hp : ∀ p ∈ places, p ≤ (x ++ r).length → p ≤ r.length) :
    ∃ r', t = x ++ r' ∧ Uncommented places x.getLast? r r' := by
  obtain ⟨c, hc, hword⟩ := hlast
  obtain ⟨r', rfl, hr⟩ | ⟨y, blanks, more, rest, r', rfl, hne, -, -, hb, -⟩ := h.split hp
  · rw [Option.mem_def.mp hc, Option.some_or] at hr
    exact ⟨r', rfl, by rwa [Option.mem_def.mp hc]⟩
  · have hblank := hb _ (List.mem_append_left more (List.getLast_mem hne))
    rw [List.getLast?_append_of_ne_nil _ hne, List.getLast?_eq_some_getLast hne] at hc
    obtain rfl := Option.some.inj hc
    simp [hblank] at hword

/-- What starts with no blank and no comment starts with the same character once comments are cut. -/
theorem Uncommented.keeps (h : Uncommented places prev (c :: s) t) (hc : c ≠ '#')
    (hb : isSpaceOrTab c = false) : ∃ t', t = c :: t' ∧ Uncommented places (some c) s t' := by
  obtain h | ⟨blanks, r, hr, hblanks, text, cr, s', rfl, -⟩ := h.cons_cases
  · exact h
  · cases blanks with
    | nil => exact absurd (List.cons.inj hr).1 hc
    | cons b blanks =>
      rw [(List.cons.inj hr).1, hblanks b (by simp)] at hb
      cases hb

theorem Uncommented.keeps_breaks (h : Uncommented places prev (x ++ r) t)
    (hx : ∀ e ∈ x, isLineBreak e) :
    ∃ r', t = x ++ r' ∧ Uncommented places (x.getLast?.or prev) r r' := by
  induction x generalizing prev t with
  | nil => exact ⟨t, rfl, h⟩
  | cons e x ih =>
    have he : isLineBreak e = true := hx e (by simp)
    have hcomment : e ≠ '#' := by
      rintro rfl
      cases he
    have hblank : isSpaceOrTab e = false := by
      by_contra hb
      rw [Bool.not_eq_false, isSpaceOrTab, Bool.or_eq_true, decide_eq_true_eq,
        decide_eq_true_eq] at hb
      obtain rfl | rfl := hb <;> cases he
    obtain ⟨t', rfl, ht⟩ := h.keeps hcomment hblank
    obtain ⟨r', rfl, hr⟩ := ih ht fun f hf => hx f (by simp [hf])
    refine ⟨r', rfl, ?_⟩
    have hlast : (e :: x).getLast?.or prev = x.getLast?.or (some e) := by
      rw [List.getLast?_cons]
      cases x.getLast? <;> rfl
    rwa [hlast]

/-- A carriage return gets no line feed behind it that was not there. -/
theorem Uncommented.head_newline (h : Uncommented places (some '\r') r t)
    (ht : t.head? = some '\n') : r.head? = some '\n' := by
  cases r with
  | nil =>
    rw [h.nil_eq] at ht
    cases ht
  | cons e r =>
    obtain ⟨t', rfl, -⟩ | ⟨blanks, q, -, -, text, cr, s', -, hprev, -⟩ := h.cons_cases
    · exact ht
    · exact absurd rfl (hprev '\r' rfl (by decide)).1

end ClusterConfig.Yaml
