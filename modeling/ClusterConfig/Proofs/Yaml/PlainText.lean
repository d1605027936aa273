import Mathlib
import ClusterConfig.Proofs.Yaml.Scanning

/-!
# Plain texts are read as they were written

A text that needs no quotes is read word by word, and each gap between two words folds to the spaces
it holds. What stops the scalar is the colon of a key or the line break after a value.
-/

set_option autoImplicit false

namespace ClusterConfig.Yaml

/-! ## Gaps -/

/-- Breaks that are read as they are. -/
def IsBreak (c : Char) : Prop := c = '\n' ∨ isSeparator c = true

theorem lineBreak?_cons {b : Char} (h : IsBreak b) (rest : List Char) (index line column : Nat) :
    Cursor.lineBreak? ⟨b :: rest, index, line, column⟩ =
      some (b, ⟨rest, index + 1, line + 1, 0⟩) := by
  have hr : b ≠ '\r' := by
    rintro rfl
    simp [IsBreak, isSeparator] at h
  have hb : isLineBreak b = true := by
    rcases h with rfl | h
    · rfl
    · simp [isLineBreak, h]
  have hself : (if isSeparator b then b else '\n') = b := by
    rcases h with rfl | h
    · rfl
    · rw [if_pos h]
  rw [Cursor.lineBreak?]
  split
  · rename_i heq
    exact absurd (List.cons.inj heq).1 hr
  · rename_i heq
    obtain ⟨rfl, rfl⟩ := List.cons.inj heq
    rw [if_pos hb, hself]
  · rename_i heq
    cases heq

theorem not_isSpaceOrTab_of_isBreak {b : Char} (h : IsBreak b) : isSpaceOrTab b = false := by
  rcases h with rfl | h
  · rfl
  · simp only [isSeparator, Bool.or_eq_true, decide_eq_true_eq] at h
    rcases h with rfl | rfl <;> rfl

theorem gap_lines {b : Char} {breaks rest : List Char} {indent n fuel : Nat} (hb : IsBreak b)
    (hbreaks : ∀ x ∈ breaks, IsBreak x) (hs : ∀ x ∈ rest.head?, isSpaceOrBreak x = false)
    (index line column : Nat) (hf : breaks.length + 1 ≤ fuel) :
    Gap.read.lines indent fuel ⟨b :: (breaks ++ (spaces n ++ rest)), index, line, column⟩ =
      some (⟨[], b :: breaks⟩,
        ⟨rest, index + 1 + breaks.length + n, line + 1 + breaks.length, n⟩) := by
  induction breaks generalizing b index line column fuel with
  | nil =>
    obtain ⟨k, rfl⟩ : ∃ k, fuel = k + 1 := ⟨fuel - 1, by simp at hf; omega⟩
    have htake : (spaces n ++ rest).takeWhile isSpaceOrTab = spaces n := by
      apply takeWhile_append_stop
      · intro c hc
        rw [eq_space_of_mem_spaces hc]
        rfl
      · intro c hc
        exact (Bool.or_eq_false_iff.mp (hs c hc)).1
    -- a tab would be refused inside the indent
    have htabs : '\t' ∉ (spaces n).take indent := fun h =>
      absurd (eq_space_of_mem_spaces (List.mem_of_mem_take h)) (by decide)
    have hend : Cursor.lineBreak? ⟨rest, index + 1 + n, line + 1, n⟩ = none :=
      lineBreak?_eq_none fun c hc => (Bool.or_eq_false_iff.mp (hs c hc)).2
    have hstop : Gap.read.lines indent k ⟨rest, index + 1 + n, line + 1, n⟩ =
        some (Gap.empty, ⟨rest, index + 1 + n, line + 1, n⟩) := by
      cases k <;> simp [Gap.read.lines, hend]
    simp [Gap.read.lines, lineBreak?_cons hb, htake, htabs, Cursor.advance, hstop, Gap.empty]
  | cons x more ih =>
    obtain ⟨k, rfl⟩ : ∃ k, fuel = k + 1 := ⟨fuel - 1, by simp at hf; omega⟩
    have hx := hbreaks x (by simp)
    have hmore : Gap.read.lines indent k _ = _ :=
      ih hx (fun y hy => hbreaks y (by simp [hy])) (index + 1) (line + 1) 0 (by simp at hf; omega)
    simp [Gap.read.lines, lineBreak?_cons hb, not_isSpaceOrTab_of_isBreak hx, Cursor.advance,
      hmore]
    omega

theorem gap_breaks {b : Char} {breaks rest : List Char} {indent n fuel : Nat} (hb : IsBreak b)
    (hbreaks : ∀ x ∈ breaks, IsBreak x) (hs : ∀ x ∈ rest.head?, isSpaceOrBreak x = false)
    (index line column : Nat) (hf : breaks.length + 2 ≤ fuel) :
    Gap.read indent fuel ⟨b :: (breaks ++ (spaces n ++ rest)), index, line, column⟩ =
      some (⟨[], b :: breaks⟩,
        ⟨rest, index + 1 + breaks.length + n, line + 1 + breaks.length, n⟩) := by
  obtain ⟨k, rfl⟩ : ∃ k, fuel = k + 1 := ⟨fuel - 1, by omega⟩
  rw [Gap.read]
  simp only [not_isSpaceOrTab_of_isBreak hb]
  exact gap_lines hb hbreaks hs index line column (by omega)

theorem advance_zero (c : Cursor) : c.advance 0 = c := rfl

theorem advance_advance (c : Cursor) (m n : Nat) : (c.advance m).advance n = c.advance (m + n) := by
  simp [Cursor.advance, List.drop_drop, Nat.add_assoc]

theorem gap_spaces {rest : List Char} {indent n fuel : Nat}
    (hs : ∀ x ∈ rest.head?, isSpaceOrBreak x = false) (c : Cursor) (hc : c.rest = spaces n ++ rest)
    (hf : n ≤ fuel) :
    Gap.read indent fuel c = some (⟨spaces n, []⟩, c.advance n) := by
  induction n generalizing c fuel with
  | zero =>
    have hrest : c.rest = rest := by simpa [spaces] using hc
    have hend : c.lineBreak? = none :=
      lineBreak?_eq_none fun x hx =>
        (Bool.or_eq_false_iff.mp (hs x (by rwa [← hrest]))).2
    have hstop (k : Nat) : Gap.read.lines indent k c = some (Gap.empty, c) := by
      cases k <;> simp [Gap.read.lines, hend]
    cases fuel with
    | zero => rfl
    | succ k =>
      rw [Gap.read, hrest]
      cases rest with
      | nil => rfl
      | cons x more =>
        have hx := (Bool.or_eq_false_iff.mp (hs x (by simp))).1
        simp [hx, hstop, Gap.empty, spaces, advance_zero]
  | succ n ih =>
    obtain ⟨k, rfl⟩ : ∃ k, fuel = k + 1 := ⟨fuel - 1, by omega⟩
    have hrest : c.rest = ' ' :: (spaces n ++ rest) := by
      simpa [spaces, List.replicate_succ] using hc
    have hmore : Gap.read indent k (c.advance 1) = _ :=
      ih (c.advance 1) (by simp [Cursor.advance, hrest]) (by omega)
    rw [Gap.read, hrest]
    simp [isSpaceOrTab, hmore, advance_advance, spaces, List.replicate_succ, Nat.add_comm]

/-! ## Words -/

/-- A text as words with gaps between them, each all spaces or all breaks. -/
inductive Worded (blank : Char → Bool) : List Char → Prop
  | word {word : List Char} (hw : ∀ c ∈ word, blank c = false) : Worded blank word
  | spaces {word rest : List Char} (n : Nat) (hw : ∀ c ∈ word, blank c = false)
      (hrest : ∀ c ∈ rest.head?, blank c = false) (more : Worded blank rest) :
      Worded blank (word ++ (Yaml.spaces (n + 1) ++ rest))
  | breaks {word rest : List Char} (b : Char) (breaks : List Char)
      (hw : ∀ c ∈ word, blank c = false) (hb : ∀ c ∈ b :: breaks, blank c = true ∧ IsBreak c)
      (hrest : ∀ c ∈ rest.head?, blank c = false) (more : Worded blank rest) :
      Worded blank (word ++ (b :: breaks ++ rest))

theorem Worded.cons {blank : Char → Bool} {s : List Char} {c : Char} (hs : Worded blank s)
    (hc : blank c = false) : Worded blank (c :: s) := by
  cases hs with
  | word hw => exact .word (List.forall_mem_cons.mpr ⟨hc, hw⟩)
  | spaces n hw hrest more =>
    rw [← List.cons_append]
    exact .spaces n (List.forall_mem_cons.mpr ⟨hc, hw⟩) hrest more
  | breaks b breaks hw hb hrest more =>
    rw [← List.cons_append]
    exact .breaks b breaks (List.forall_mem_cons.mpr ⟨hc, hw⟩) hb hrest more

theorem IsBreak.ne_space {c : Char} (h : IsBreak c) : c ≠ ' ' := by
  rintro rfl
  simp [IsBreak, isSeparator] at h

theorem Worded.space {blank : Char → Bool} {s : List Char} (hs : Worded blank s)
    (hn : ∀ c ∈ s.head?, blank c = true → c = ' ') : Worded blank (' ' :: s) := by
  by_cases hh : ∀ c ∈ s.head?, blank c = false
  · exact @Worded.spaces blank [] s 0 (by simp) hh hs
  · cases hs with
    | word hw => exact absurd (fun c hc => hw c (List.mem_of_mem_head? hc)) hh
    | @spaces word rest n hw hrest more =>
      cases word with
      | nil => exact @Worded.spaces blank [] rest (n + 1) (by simp) hrest more
      | cons c _ => exact absurd (by simpa using hw c (by simp)) hh
    | @breaks word rest b breaks hw hb hrest more =>
      cases word with
      | nil => exact absurd (hn b (by simp) (hb b (by simp)).1) (hb b (by simp)).2.ne_space
      | cons c _ => exact absurd (by simpa using hw c (by simp)) hh

theorem Worded.break {blank : Char → Bool} {s : List Char} {c : Char} (hs : Worded blank s)
    (hc : blank c = true ∧ IsBreak c)
    (hn : ∀ x ∈ s.head?, blank x = true → x ≠ ' ') : Worded blank (c :: s) := by
  by_cases hh : ∀ x ∈ s.head?, blank x = false
  · exact @Worded.breaks blank [] s c [] (by simp) (by simpa using hc) hh hs
  · cases hs with
    | word hw => exact absurd (fun x hx => hw x (List.mem_of_mem_head? hx)) hh
    | @spaces word rest n hw hrest more =>
      cases word with
      | nil =>
        have hblank : blank ' ' = true := by simpa [Yaml.spaces, List.replicate_succ] using hh
        exact absurd rfl (hn ' ' (by simp [Yaml.spaces, List.replicate_succ]) hblank)
      | cons x _ => exact absurd (by simpa using hw x (by simp)) hh
    | @breaks word rest b breaks hw hb hrest more =>
      cases word with
      | nil =>
        exact @Worded.breaks blank [] rest c (b :: breaks) (by simp)
          (List.forall_mem_cons.mpr ⟨hc, hb⟩) hrest more
      | cons x _ => exact absurd (by simpa using hw x (by simp)) hh

theorem hasNeighbours_cons (p q : Char → Bool) (c : Char) (rest : List Char) :
    hasNeighbours p q (c :: rest) = (p c && rest.head?.any q || hasNeighbours p q rest) := by
  cases rest with
  | nil => simp [hasNeighbours]
  | cons x more => simp [hasNeighbours]

theorem IsBreak.isLineBreak {c : Char} (h : IsBreak c) : isLineBreak c = true := by
  rcases h with rfl | h
  · rfl
  · simp [Yaml.isLineBreak, h]

/-- A text in which no space stands beside a break is made of words and gaps. -/
theorem worded {blank : Char → Bool} {s : List Char}
    (hb : ∀ c ∈ s, blank c = true → c = ' ' ∨ IsBreak c)
    (hsb : hasNeighbours isSpace (fun c => blank c && isLineBreak c) s = false)
    (hbs : hasNeighbours (fun c => blank c && isLineBreak c) isSpace s = false) :
    Worded blank s := by
  induction s with
  | nil => exact .word (by simp)
  | cons c rest ih =>
    rw [hasNeighbours_cons, Bool.or_eq_false_iff, Bool.and_eq_false_imp] at hsb hbs
    obtain ⟨hfirst, hrest⟩ := List.forall_mem_cons.mp hb
    have hw := ih hrest hsb.2 hbs.2
    cases hc : blank c with
    | false => exact hw.cons hc
    | true =>
      rcases hfirst hc with rfl | hbreak
      · refine hw.space fun x hx hxb => ?_
        have hx' : (blank x && isLineBreak x) = false := by
          simpa [Option.mem_def.mp hx] using hsb.1 rfl
        rcases hrest x (List.mem_of_mem_head? hx) hxb with rfl | hxbreak
        · rfl
        · simp [hxb, hxbreak.isLineBreak] at hx'
      · refine hw.break ⟨hc, hbreak⟩ fun x hx _ => ?_
        rintro rfl
        simpa [Option.mem_def.mp hx, isSpace] using hbs.1 (by simp [hc, hbreak.isLineBreak])

/-! ## Plain texts -/

theorem endsWord_append {s : List Char} (tail : List Char) (h : endsWord s = false) :
    endsWord (s ++ tail) = false := by
  cases s with
  | nil => cases h
  | cons c rest => exact h

theorem hasInnerIndicator_tail {l rest : List Char} {blank : Bool} {c : Char}
    (h : hasInnerIndicator blank (l ++ c :: rest) = false) :
    hasInnerIndicator (isSpaceOrBreak c) rest = false := by
  induction l generalizing blank with
  | nil =>
    rw [List.nil_append, hasInnerIndicator] at h
    exact (Bool.or_eq_false_iff.mp h).2
  | cons x more ih =>
    rw [List.cons_append, hasInnerIndicator] at h
    exact ih (Bool.or_eq_false_iff.mp h).2

/-- A word is read up to where the text goes on with a blank, or to its end. -/
theorem plainRun_word {word tail : List Char} {blank : Bool} (rest : List Char)
    (hw : ∀ c ∈ word, isSpaceOrBreak c = false)
    (hi : hasInnerIndicator blank (word ++ rest) = false)
    (ht : plainRun false (rest ++ tail) = some []) :
    plainRun false (word ++ (rest ++ tail)) = some word := by
  induction word generalizing blank with
  | nil => exact ht
  | cons c more ih =>
    rw [List.cons_append, hasInnerIndicator] at hi
    obtain ⟨hc, hmore⟩ := Bool.or_eq_false_iff.mp hi
    have hblank : isSpaceOrBreak c = false := hw c (by simp)
    have hcolon : (c = ':' && endsWord (more ++ (rest ++ tail))) = false := by
      have hin := (Bool.or_eq_false_iff.mp hc).1
      rw [Bool.and_eq_false_iff] at hin ⊢
      rw [← List.append_assoc]
      exact hin.imp_right (endsWord_append tail)
    simp [plainRun, hblank, hcolon, ih (fun x hx => hw x (by simp [hx])) hmore]

/-- A word and the gap after it, which ends the scalar where it goes left of its collection. -/
theorem plainFrom_gap {least fuel : Nat} {word : List Char} {gap after : Gap} {c d : Cursor}
    (hb : boundary? c = none) (hcomment : c.rest.head? ≠ some '#')
    (hrun : plainRun false c.rest = some word) (hword : word ≠ [])
    (hstart : (c.advance word.length).startsWith isSpaceOrBreak = true)
    (hgap : Gap.read least ((c.advance word.length).rest.length + 1) (c.advance word.length) =
      some (after, d)) :
    plainFrom false least (fuel + 1) gap c =
      if d.column < least then some ⟨gap.folded ++ word, !after.breaks.isEmpty, d⟩
      else (plainFrom false least fuel after d).map fun more =>
        { more with text := gap.folded ++ word ++ more.text } := by
  have hempty : word.isEmpty = false := by simpa using hword
  rw [plainFrom]
  simp only [hb, hrun, hcomment, Option.isSome_none, Bool.false_or, decide_false,
    Bool.false_eq_true, if_false, Option.bind_eq_bind, Option.bind_some, hempty, hstart, hgap, Bool.not_true,
    Bool.not_false, Bool.true_and, decide_eq_true_eq]
  split
  · rfl
  · cases plainFrom false least fuel after d <;> rfl

/-- What follows a plain scalar ends it, with a line break or without; `after` is the place where
the scanner goes on. -/
def EndsPlain (least : Nat) (tail : List Char) (broken : Bool) (after : Cursor → Cursor) : Prop :=
  plainRun false tail = some [] ∧
    ∀ (word : List Char) (gap : Gap) (c : Cursor) (fuel : Nat),
      c.rest = word ++ tail → word ≠ [] → c.rest.head? ≠ some '#' → boundary? c = none →
        plainRun false c.rest = some word → least ≤ c.column + 1 →
          plainFrom false least (fuel + 2) gap c =
            some ⟨gap.folded ++ word, broken, after (c.advance word.length)⟩

/-- What the writer sees to before it leaves a text plain, but for the first character. -/
structure PlainText (s : List Char) : Prop where
  nonempty : s ≠ []
  first : ∀ x ∈ s.head?, isSpaceOrBreak x = false
  last : ∀ x ∈ s.getLast?, isSpaceOrBreak x = false
  line : ∀ x ∈ s, isLineBreak x = false
  inner : hasInnerIndicator true s = false

theorem PlainText.not_comment {s : List Char} (h : PlainText s) (tail : List Char) :
    (s ++ tail).head? ≠ some '#' := by
  obtain ⟨hne, -, -, -, hi⟩ := h
  cases s with
  | nil => exact absurd rfl hne
  | cons c rest =>
    rintro ⟨⟩
    simp [hasInnerIndicator] at hi

theorem PlainText.after_gap {word rest : List Char} {n : Nat}
    (h : PlainText (word ++ (spaces (n + 1) ++ rest)))
    (hrest : ∀ c ∈ rest.head?, isSpaceOrBreak c = false) : PlainText rest := by
  have hsplit : word ++ (spaces (n + 1) ++ rest) = (word ++ spaces n) ++ ' ' :: rest := by
    simp [spaces, List.replicate_succ']
  have hne : rest ≠ [] := by
    rintro rfl
    have hlast := h.last ' ' (by rw [hsplit]; simp)
    simp [isSpaceOrBreak, isSpaceOrTab] at hlast
  refine ⟨hne, hrest, fun x hx => h.last x ?_, fun x hx => h.line x (by simp [hx]), ?_⟩
  · rw [List.getLast?_append_of_ne_nil _ (by simp [hne]), List.getLast?_append_of_ne_nil _ hne]
    exact hx
  · have hi := h.inner
    rw [hsplit] at hi
    exact hasInnerIndicator_tail hi

theorem plainFrom_text {s tail : List Char} {least : Nat} {broken : Bool}
    {after : Cursor → Cursor} (ht : EndsPlain least tail broken after)
    (hs : Worded isSpaceOrBreak s) :
    ∀ (gap : Gap) (c : Cursor) (fuel : Nat), c.rest = s ++ tail → PlainText s →
      boundary? c = none → least ≤ c.column + 1 → s.length + 1 ≤ fuel →
        plainFrom false least fuel gap c =
          some ⟨gap.folded ++ s, broken, after (c.advance s.length)⟩ := by
  induction hs with
  | @word word hw =>
    intro gap c fuel hc hp hb hl hf
    have hpos := List.length_pos_iff.mpr hp.nonempty
    obtain ⟨k, rfl⟩ : ∃ k, fuel = k + 2 := ⟨fuel - 2, by omega⟩
    have hrun : plainRun false c.rest = some word := by
      rw [hc]
      exact plainRun_word [] hw (by simpa using hp.inner) ht.1
    exact ht.2 word gap c k hc hp.nonempty (hc ▸ hp.not_comment _) hb hrun hl
  | @spaces word rest n hw hrest more ih =>
    intro gap c fuel hc hp hb hl hf
    have hword : word ≠ [] := by
      rintro rfl
      simpa [spaces, List.replicate_succ, isSpaceOrBreak, isSpaceOrTab] using hp.first
    have hpos := List.length_pos_iff.mpr hword
    have hprest := hp.after_gap hrest
    obtain ⟨x, others, rfl⟩ := List.exists_cons_of_ne_nil hprest.nonempty
    obtain ⟨k, rfl⟩ : ∃ k, fuel = k + 1 := ⟨fuel - 1, by omega⟩
    have hrun : plainRun false c.rest = some word := by
      rw [hc, List.append_assoc]
      exact plainRun_word _ hw hp.inner
        (by simp [spaces, List.replicate_succ, plainRun, isSpaceOrBreak, isSpaceOrTab])
    have hafter : (c.advance word.length).rest = spaces (n + 1) ++ (x :: others ++ tail) := by
      simp [Cursor.advance, hc]
    have hstart : (c.advance word.length).startsWith isSpaceOrBreak = true := by
      simp [Cursor.startsWith, hafter, spaces, List.replicate_succ, isSpaceOrBreak, isSpaceOrTab]
    have hgap : Gap.read least ((c.advance word.length).rest.length + 1) (c.advance word.length) =
        some (⟨spaces (n + 1), []⟩, c.advance (word.length + (n + 1))) := by
      rw [← advance_advance]
      exact gap_spaces (by simpa using hrest) _ hafter (by simp [hafter]; omega)
    have hcolumn : ¬ (c.advance (word.length + (n + 1))).column < least := by
      simp [Cursor.advance]
      omega
    have hnext := ih ⟨spaces (n + 1), []⟩ (c.advance (word.length + (n + 1))) k
      (by simp [Cursor.advance, hc]) hprest (by simp [boundary?, Cursor.advance])
      (by simp [Cursor.advance]; omega) (by simp at hf ⊢; omega)
    rw [plainFrom_gap hb (hc ▸ hp.not_comment _) hrun hword hstart hgap, if_neg hcolumn, hnext]
    simp [Gap.folded, advance_advance, Nat.add_assoc]
  | breaks b breaks hw hb hrest more ih =>
    -- a plain text has no line breaks
    intro gap c fuel hc hp
    have := hp.line b (by simp)
    have := (hb b (by simp)).2.isLineBreak
    simp_all

/-- The colon after a key. -/
theorem endsPlain_key {more : List Char} (least : Nat) (hm : endsWord more = true) :
    EndsPlain least (':' :: more) false id := by
  refine ⟨by simp [plainRun, hm], ?_⟩
  intro word gap c fuel hc hword hcomment hb hrun hl
  have hstart : (c.advance word.length).startsWith isSpaceOrBreak = false := by
    simp [Cursor.startsWith, Cursor.advance, hc, isSpaceOrBreak, isSpaceOrTab, isLineBreak,
      isSeparator]
  rw [plainFrom]
  simp [hb, hrun, hcomment, hword, hstart]

/-- The least column that belongs to a plain scalar of a collection at `outer`. -/
def leastColumn : Option Nat → Nat
  | some n => n + 1
  | none => 0

/-- The line break after a value. -/
theorem endsPlain_value {outer : Option Nat} {n : Nat} {rest : List Char}
    (hf : Spot.Follows outer n rest) :
    EndsPlain (leastColumn outer) ('\n' :: (spaces n ++ rest)) true
      fun c => ⟨rest, c.index + 1 + n, c.line + 1, n⟩ := by
  obtain ⟨hs, hf⟩ := hf
  refine ⟨by simp [plainRun, isSpaceOrBreak, isLineBreak], ?_⟩
  intro word gap c fuel hc hword hcomment hb hrun hl
  have hafter : c.advance word.length =
      ⟨'\n' :: ([] ++ (spaces n ++ rest)), c.index + word.length, c.line,
        c.column + word.length⟩ := by
    simp [Cursor.advance, hc]
  have hgap : Gap.read (leastColumn outer) ((c.advance word.length).rest.length + 1)
      (c.advance word.length) =
        some (⟨[], ['\n']⟩, ⟨rest, c.index + word.length + 1 + n, c.line + 1, n⟩) := by
    rw [hafter]
    exact gap_breaks (.inl rfl) (by simp) (fun x hx => (hs x hx).1) _ _ _ (by simp)
  rw [plainFrom_gap hb hcomment hrun hword (by rw [hafter]; rfl) hgap]
  cases outer with
  | some k =>
    have hn : n ≤ k := hf
    simp [leastColumn, hn, Cursor.advance]
  | none =>
    obtain ⟨rfl, rfl | ⟨more, rfl⟩⟩ := hf
    · simp [leastColumn, plainFrom, boundary?, plainRun, Cursor.advance]
    · simp [leastColumn, plainFrom, boundary?, endsWord, isSpaceOrBreak, isLineBreak,
        Cursor.advance]

theorem isSpaceOrBreak_of_printable {c : Char} (h : isPrintable c = true) :
    isSpaceOrBreak c = isEdge c := by
  have ht : c ≠ '\t' := by
    rintro rfl
    exact absurd h (by decide)
  simp [isSpaceOrBreak, isSpaceOrTab, isEdge, isSpace, ht]

theorem hasNeighbours_of_no_left {p q : Char → Bool} {s : List Char} (h : ∀ c ∈ s, p c = false) :
    hasNeighbours p q s = false := by
  induction s with
  | nil => rfl
  | cons c rest ih =>
    rw [hasNeighbours_cons, h c (by simp), ih fun x hx => h x (by simp [hx])]
    rfl

theorem hasNeighbours_of_no_right {p q : Char → Bool} {s : List Char} (h : ∀ c ∈ s, q c = false) :
    hasNeighbours p q s = false := by
  induction s with
  | nil => rfl
  | cons c rest ih =>
    have hhead : rest.head?.any q = false := by
      cases rest with
      | nil => rfl
      | cons x more => exact h x (by simp)
    rw [hasNeighbours_cons, hhead, ih fun x hx => h x (by simp [hx])]
    simp

theorem worded_of_line {s : List Char} (hb : ∀ c ∈ s, isSpaceOrBreak c = true → c = ' ') :
    Worded isSpaceOrBreak s := by
  have hnone (c : Char) (hc : c ∈ s) : (isSpaceOrBreak c && isLineBreak c) = false := by
    by_contra hcon
    have hcon := Bool.and_eq_true_iff.mp (eq_true_of_ne_false hcon)
    rw [hb c hc hcon.1] at hcon
    exact absurd hcon.2 (by decide)
  exact worded (fun c hc hcb => .inl (hb c hc hcb)) (hasNeighbours_of_no_right hnone)
    (hasNeighbours_of_no_left hnone)

theorem opensIndicator_eq_false {c : Char} {rest : List Char} (h : opensIndicator c rest = false) :
    (c ≠ '#' ∧ c ≠ ',' ∧ c ≠ '[' ∧ c ≠ ']' ∧ c ≠ '{' ∧ c ≠ '}' ∧ c ≠ '&' ∧ c ≠ '*' ∧ c ≠ '!' ∧
      c ≠ '|' ∧ c ≠ '>' ∧ c ≠ '\'' ∧ c ≠ '"' ∧ c ≠ '%' ∧ c ≠ '@' ∧ c ≠ '\x60') ∧
      ((c = '?' ∨ c = ':' ∨ c = '-') → endsWord rest = false) := by
  rw [opensIndicator, Bool.or_eq_false_iff] at h
  obtain ⟨hlist, hword⟩ := h
  refine ⟨by simpa using hlist, fun hc => ?_⟩
  rw [Bool.and_eq_false_imp] at hword
  exact hword (by simpa [or_assoc] using hc)

theorem any_eq_false_iff {o : Option Char} {p : Char → Bool} :
    o.any p = false ↔ ∀ c ∈ o, p c = false := by
  cases o <;> simp

theorem allowsPlain_iff {s : List Char} : allowsPlain s = true ↔
    (∀ c ∈ s, isPrintable c = true ∧ isLineBreak c = false) ∧
      hasNeighbours isSpace isLineBreak s = false ∧ hasIndicator s = false ∧
      (∀ c ∈ s.head?, isEdge c = false) ∧ ∀ c ∈ s.getLast?, isEdge c = false := by
  simp only [allowsPlain, isWritable, Bool.and_eq_true, Bool.not_eq_true', any_eq_false_iff,
    List.all_eq_true, List.any_eq_false, Bool.not_eq_true]
  exact ⟨fun ⟨⟨⟨⟨⟨ha, hn⟩, hl⟩, hi⟩, hf⟩, he⟩ => ⟨fun c hc => ⟨ha c hc, hl c hc⟩, hn, hi, hf, he⟩,
    fun ⟨ha, hn, hi, hf, he⟩ => ⟨⟨⟨⟨⟨fun c hc => (ha c hc).1, hn⟩, fun c hc => (ha c hc).2⟩, hi⟩,
      hf⟩, he⟩⟩

theorem plainText_of_allowsPlain {s : List Char} (h : allowsPlain s = true) (hne : s ≠ []) :
    PlainText s := by
  obtain ⟨hall, -, hindicator, hfirst, hlast⟩ := allowsPlain_iff.mp h
  obtain ⟨c, rest, rfl⟩ := List.exists_cons_of_ne_nil hne
  rw [hasIndicator, Bool.or_eq_false_iff, Bool.or_eq_false_iff] at hindicator
  obtain ⟨-, hopens, hinner⟩ := hindicator
  obtain ⟨hnot, hword⟩ := opensIndicator_eq_false hopens
  refine ⟨hne, fun x hx => ?_, fun x hx => ?_, fun x hx => (hall x hx).2, ?_⟩
  · rw [isSpaceOrBreak_of_printable (hall x (List.mem_of_mem_head? hx)).1]
    exact hfirst x hx
  · rw [isSpaceOrBreak_of_printable (hall x (List.mem_of_mem_getLast? hx)).1]
    exact hlast x hx
  · have hcolon : c = ':' → endsWord rest = false := fun hc => hword (.inr (.inl hc))
    simpa [hasInnerIndicator, hinner, hnot.1] using hcolon

theorem boundary?_of_text {s tail : List Char} (h : startsLikeBoundary s = false) (hne : s ≠ [])
    (ht : ∀ c ∈ tail.head?, c ≠ '-' ∧ c ≠ '.') (index line column : Nat) :
    boundary? ⟨s ++ tail, index, line, column⟩ = none := by
  have hstart (x : Char) (hx : x = '-' ∨ x = '.') (more : List Char) :
      s ++ tail ≠ x :: x :: x :: more := by
    intro heq
    match s, tail, hne, heq with
    | [_], y :: _, _, heq =>
      obtain rfl : y = x := by simpa using (List.cons.inj (List.cons.inj heq).2).1
      have hy := ht y (by simp)
      tauto
    | [_, _], y :: _, _, heq =>
      obtain rfl : y = x := by
        simpa using (List.cons.inj (List.cons.inj (List.cons.inj heq).2).2).1
      have hy := ht y (by simp)
      tauto
    | a :: b :: c :: _, _, _, heq =>
      simp only [List.cons_append, List.cons.injEq] at heq
      obtain ⟨rfl, rfl, rfl, -⟩ := heq
      rcases hx with rfl | rfl <;> simp [startsLikeBoundary] at h
  rw [boundary?]
  split
  · split
    · rename_i heq
      exact absurd heq (hstart '-' (.inl rfl) _)
    · rename_i heq
      exact absurd heq (hstart '.' (.inr rfl) _)
    · rfl
  · rfl

open Spot

variable {p : Spot} {index line : Nat}

theorem startsPlain_of_text {c : Char} {rest : List Char} (tail : List Char)
    (hopens : opensIndicator c rest = false) (hblank : isSpaceOrBreak c = false) :
    Scan.startsPlain false c (rest ++ tail) = true := by
  obtain ⟨hnot, hword⟩ := opensIndicator_eq_false hopens
  rw [Scan.startsPlain]
  split
  · rename_i hdash
    have hmore := endsWord_append tail (hword (by simp [hdash]))
    cases hs : rest ++ tail with
    | nil => rfl
    | cons x more =>
      rw [hs] at hmore
      simpa using (Bool.or_eq_false_iff.mp hmore).1
  · split
    · rename_i hmark
      simpa using endsWord_append tail (hword (by simpa [or_assoc] using Or.inl hmark))
    · simp [hblank, hnot]

theorem next_eq_plainScalar {c : Char} {rest tail : List Char} (hp : p.rest = c :: (rest ++ tail))
    (hb : boundary? (p.scan none index line).cursor = none)
    (hopens : opensIndicator c rest = false) (hblank : isSpaceOrBreak c = false) :
    (p.scan none index line).next = (p.scan none index line).plainScalar := by
  obtain ⟨hnot, hword⟩ := opensIndicator_eq_false hopens
  have hstart := startsPlain_of_text tail hopens hblank
  have hmark (x : Char) (hx : x = '?' ∨ x = ':' ∨ x = '-') :
      ¬ (c = x ∧ endsWord (rest ++ tail) = true) := by
    rintro ⟨rfl, hends⟩
    rw [endsWord_append tail (hword hx)] at hends
    cases hends
  have hquestion := hmark '?' (by simp)
  have hcolon := hmark ':' (by simp)
  have hdash := hmark '-' (by simp)
  rw [Scan.next, hb]
  simp [scan, hp, Scan.inFlow, hnot, hstart, hdash, hquestion, hcolon]

theorem readPlain_text {s tail : List Char} {least : Nat} {broken : Bool}
    {after : Cursor → Cursor} {c : Cursor} (h : allowsPlain s = true) (hne : s ≠ [])
    (hc : c.rest = s ++ tail) (hend : EndsPlain least tail broken after) (hb : boundary? c = none)
    (hl : least ≤ c.column + 1) :
    readPlain false least c = some ⟨s, broken, after (c.advance s.length)⟩ := by
  have hworded : Worded isSpaceOrBreak s := worded_of_line fun x hx hblank => by
    have hall := (allowsPlain_iff.mp h).1 x hx
    rw [isSpaceOrBreak_of_printable hall.1] at hblank
    simpa [isEdge, hall.2, isSpace] using hblank
  exact plainFrom_text hend hworded Gap.empty c (c.rest.length + 1) hc
    (plainText_of_allowsPlain h hne) hb hl (by simp [hc])

/-- A plain scalar where the collections around it allow one. -/
theorem next_plain {s tail : List Char} {broken : Bool} {after : Cursor → Cursor}
    (h : allowsPlain s = true) (hne : s ≠ []) (hp : p.rest = s ++ tail)
    (htail : ∀ c ∈ tail.head?, c ≠ '-' ∧ c ≠ '.')
    (hend : EndsPlain (leastColumn p.indents.head?) tail broken after)
    (hc : leastColumn p.indents.head? ≤ p.column + 1) :
    (p.scan none index line).next =
      some ((((p.scan (p.newKey index line) index line).allowKey broken).goTo
        (after ⟨tail, index + s.length, line, p.column + s.length⟩)).put (.scalar .plain s)) := by
  have hread := readPlain_text (c := (p.scan none index line).cursor) h hne hp hend
  have hindicator := (allowsPlain_iff.mp h).2.2.1
  have hblank := (plainText_of_allowsPlain h hne).first
  obtain ⟨c, rest, rfl⟩ := List.exists_cons_of_ne_nil hne
  rw [hasIndicator, Bool.or_eq_false_iff, Bool.or_eq_false_iff] at hindicator
  obtain ⟨hstarts, hopens, -⟩ := hindicator
  have hcursor : (p.scan none index line).cursor = ⟨c :: rest ++ tail, index, line, p.column⟩ := by
    rw [← hp]
    rfl
  have hb : boundary? (p.scan none index line).cursor = none := by
    rw [hcursor]
    exact boundary?_of_text hstarts hne htail index line p.column
  have hadvance : (p.scan none index line).cursor.advance (c :: rest).length =
      ⟨tail, index + (c :: rest).length, line, p.column + (c :: rest).length⟩ := by
    simp [Cursor.advance, hcursor]
  have hindent : (p.scan (p.newKey index line) index line).indent = p.indents.head? := rfl
  have hflow : (p.scan (p.newKey index line) index line).inFlow = false := by
    simp [scan, Scan.inFlow]
  rw [next_eq_plainScalar hp hb hopens (hblank c rfl), Scan.plainScalar, saveKey_scan]
  simp only [Option.bind_eq_bind, Option.bind_some, hindent, hflow]
  rw [hadvance] at hread
  exact congrArg (Option.bind · _) (hread hb hc)

theorem leastColumn_le {outer : Option Nat} {column : Nat} (h : ∀ k ∈ outer, k ≤ column) :
    leastColumn outer ≤ column + 1 := by
  cases outer with
  | none => exact Nat.zero_le _
  | some k => exact Nat.succ_le_succ (h k rfl)

theorem scansKey_plain {s : List Char} (h : allowsPlain s = true) (hne : s ≠ [])
    (hlen : s.length ≤ 1024) : ScansKey s (.scalar .plain s) := by
  refine ⟨hne, hlen, fun p more hp hm _ hh index line => ?_⟩
  exact next_plain h hne hp (by simp) (endsPlain_key _ hm) (leastColumn_le hh)

theorem scans_plain {s : List Char} (h : allowsPlain s = true) (hne : s ≠ [])
    (outer : Option Nat) : Scans outer (s ++ ['\n']) [.scalar .plain s] := by
  intro p n rest hp ho hc hf
  have hp' : p.rest = s ++ '\n' :: (spaces n ++ rest) := by simpa using hp
  have hleast : leastColumn p.indents.head? ≤ p.column + 1 :=
    leastColumn_le fun k hk => Nat.le_of_lt (hc k (ho ▸ hk))
  apply Leads.of_next (by simp [hp'])
  · intro index line
    refine ⟨_, index + s.length + 1 + n, line + 1,
      next_plain h hne hp' (by simp) (endsPlain_value (ho ▸ hf)) hleast, ?_⟩
    exact settle_spaces (n := 0) (p := ⟨rest, n, true, p.indents, .scalar .plain s :: p.tokens⟩)
      rfl hf.1 (newKey_gone (fun k hk => hc k (ho ▸ hk)) (Nat.lt_succ_self line))
  · simp [closed, hp']
    omega

end ClusterConfig.Yaml
