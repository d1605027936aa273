import Mathlib
import ClusterConfig.Yaml.Printer
import ClusterConfig.Proofs.Yaml.QuotedText

/-!
# Literal blocks are read as they were written

Every line of a literal block but the empty ones is indented. The reader takes the indent from the
first line or, where that starts with a blank, from the header, and the sign in the header says
which of the last line breaks belong to the text.
-/

set_option autoImplicit false

namespace ClusterConfig.Yaml

open Spot

/-- Lines, each with the line break that ends it and the empty lines after it. -/
inductive Paragraphs : List Char → Prop
  | last {line : List Char} {b : Char} {breaks : List Char} (hl : line ≠ [])
      (hline : ∀ c ∈ line, isLineBreak c = false) (hb : ∀ c ∈ b :: breaks, IsBreak c) :
      Paragraphs (line ++ b :: breaks)
  | more {line : List Char} {b : Char} {breaks rest : List Char} (hl : line ≠ [])
      (hline : ∀ c ∈ line, isLineBreak c = false) (hb : ∀ c ∈ b :: breaks, IsBreak c)
      (hrest : Paragraphs rest) : Paragraphs (line ++ b :: (breaks ++ rest))

theorem Paragraphs.cons {s : List Char} {c : Char} (h : Paragraphs s) (hc : isLineBreak c = false) :
    Paragraphs (c :: s) := by
  cases h with
  | last hl hline hb =>
    rw [← List.cons_append]
    exact .last (by simp) (List.forall_mem_cons.mpr ⟨hc, hline⟩) hb
  | more hl hline hb hrest =>
    rw [← List.cons_append]
    exact .more (by simp) (List.forall_mem_cons.mpr ⟨hc, hline⟩) hb hrest

/-- A text that ends in a line break is empty lines and then paragraphs. -/
theorem exists_paragraphs {s : List Char} (hb : ∀ c ∈ s, isLineBreak c = true → IsBreak c)
    (hlast : ∀ c ∈ s.getLast?, isLineBreak c = true) :
    ∃ breaks rest, s = breaks ++ rest ∧ (∀ c ∈ breaks, IsBreak c) ∧
      (rest = [] ∨ Paragraphs rest) := by
  induction s with
  | nil => exact ⟨[], [], rfl, by simp, .inl rfl⟩
  | cons c more ih =>
    obtain ⟨hfirst, hmore⟩ := List.forall_mem_cons.mp hb
    cases more with
    | nil => exact ⟨[c], [], rfl, by simpa using hfirst (hlast c rfl), .inl rfl⟩
    | cons x others =>
      obtain ⟨breaks, rest, heq, hbreaks, hrest⟩ := ih hmore (by simpa using hlast)
      rw [heq]
      cases hc : isLineBreak c with
      | true =>
        exact ⟨c :: breaks, rest, rfl, List.forall_mem_cons.mpr ⟨hfirst hc, hbreaks⟩, hrest⟩
      | false =>
        have hline : ∀ y ∈ [c], isLineBreak y = false := by simpa using hc
        refine ⟨[], c :: (breaks ++ rest), rfl, by simp, .inr ?_⟩
        cases breaks with
        | nil =>
          rcases hrest with rfl | hrest
          · cases heq
          · exact hrest.cons hc
        | cons b gap =>
          rcases hrest with rfl | hrest
          · simpa using Paragraphs.last (by simp) hline hbreaks
          · exact @Paragraphs.more [c] b gap rest (by simp) hline hbreaks hrest

theorem indentLines_breaks {breaks : List Char} (indent : Nat) (rest : List Char)
    (hb : ∀ c ∈ breaks, IsBreak c) :
    indentLines indent true (breaks ++ rest) = breaks ++ indentLines indent true rest := by
  induction breaks with
  | nil => rfl
  | cons b more ih =>
    obtain ⟨hfirst, hmore⟩ := List.forall_mem_cons.mp hb
    simp [indentLines, hfirst.isLineBreak, ih hmore]

theorem indentLines_line {line : List Char} (indent : Nat) (b : Char) (rest : List Char)
    (hl : ∀ c ∈ line, isLineBreak c = false) (hb : IsBreak b) :
    indentLines indent false (line ++ b :: rest) = line ++ b :: indentLines indent true rest := by
  induction line with
  | nil => simp [indentLines, hb.isLineBreak]
  | cons c more ih =>
    obtain ⟨hfirst, hmore⟩ := List.forall_mem_cons.mp hl
    simp [indentLines, hfirst, ih hmore]

/-! ## Empty lines -/

/-- What the indent of a line is followed by: a line, which starts at the indent of the block, or
the text after the block, which starts left of it. -/
def StartsLine (indent column : Nat) (text : List Char) : Prop :=
  (∀ c ∈ text.head?, c ≠ '\t' ∧ isLineBreak c = false) ∧
    (column = indent ∨ column < indent ∧ ∀ c ∈ text.head?, c ≠ ' ')

theorem blockGap_stops {indent n fuel : Nat} {rest : List Char} {index line : Nat}
    (hs : StartsLine indent n rest) :
    blockGap (some indent) (fuel + 1) ⟨spaces n ++ rest, index, line, 0⟩ =
      some ⟨[], n, ⟨rest, index + n, line, n⟩⟩ := by
  obtain ⟨hrest, hstop⟩ := hs
  have htake : ((spaces n ++ rest).takeWhile (· = ' ')).length =
      n + (rest.takeWhile (· = ' ')).length := by
    rw [List.takeWhile_append_of_pos fun c hc => by simpa using eq_space_of_mem_spaces hc]
    simp
  have hmin : min ((spaces n ++ rest).takeWhile (· = ' ')).length (indent - 0) = n := by
    rcases hstop with rfl | ⟨hlt, hspace⟩
    · omega
    · have hnone : rest.takeWhile (· = ' ') = [] :=
        takeWhile_append_stop (s := []) (by simp) fun c hc => by simpa using hspace c hc
      rw [htake, hnone]
      simp
      omega
  have hend : Cursor.lineBreak? ⟨rest, index + n, line, n⟩ = none :=
    lineBreak?_eq_none fun c hc => (hrest c hc).2
  have htab : rest.head? ≠ some '\t' := fun h => (hrest '\t' h).1 rfl
  have hdrop : (spaces n ++ rest).drop n = rest := by simp
  rw [blockGap]
  simp only [hmin, Cursor.advance, hdrop, Nat.zero_add, htab, decide_false, Bool.false_and,
    Bool.false_eq_true, if_false, hend]

theorem blockGap_breaks {indent n : Nat} {breaks rest : List Char} (fuel index line : Nat)
    (hb : ∀ c ∈ breaks, IsBreak c) (hf : breaks.length + 1 ≤ fuel) (hs : StartsLine indent n rest) :
    ∃ widest index' line',
      blockGap (some indent) fuel ⟨breaks ++ (spaces n ++ rest), index, line, 0⟩ =
        some ⟨breaks, widest, ⟨rest, index', line', n⟩⟩ := by
  induction breaks generalizing index line fuel with
  | nil =>
    obtain ⟨k, rfl⟩ : ∃ k, fuel = k + 1 := ⟨fuel - 1, by simp at hf; omega⟩
    exact ⟨_, _, _, blockGap_stops hs⟩
  | cons b others ih =>
    obtain ⟨k, rfl⟩ : ∃ k, fuel = k + 1 := ⟨fuel - 1, by simp at hf; omega⟩
    obtain ⟨hfirst, hothers⟩ := List.forall_mem_cons.mp hb
    obtain ⟨widest, index', line', hmore⟩ :=
      ih k (index + 1) (line + 1) hothers (by simp at hf; omega)
    have hspace : b ≠ ' ' := hfirst.ne_space
    have htab : b ≠ '\t' := by
      rintro rfl
      exact absurd hfirst.isLineBreak (by decide)
    refine ⟨max 0 widest, index', line', ?_⟩
    rw [List.cons_append, blockGap]
    simp [hspace, htab, Cursor.advance, lineBreak?_cons hfirst, hmore]

/-! ## Lines -/

theorem Paragraphs.head {t : List Char} (h : Paragraphs t) :
    ∃ c rest, t = c :: rest ∧ isLineBreak c = false := by
  cases h with
  | last hl hline =>
    obtain ⟨c, more, rfl⟩ := List.exists_cons_of_ne_nil hl
    exact ⟨c, _, rfl, hline c (by simp)⟩
  | more hl hline =>
    obtain ⟨c, more, rfl⟩ := List.exists_cons_of_ne_nil hl
    exact ⟨c, _, rfl, hline c (by simp)⟩

theorem Paragraphs.indentLines {t : List Char} (h : Paragraphs t) (indent : Nat) :
    Yaml.indentLines indent true t = spaces indent ++ Yaml.indentLines indent false t := by
  obtain ⟨c, rest, rfl, hc⟩ := h.head
  simp [Yaml.indentLines, hc]

theorem Paragraphs.startsLine {t : List Char} (h : Paragraphs t) (ht : ∀ c ∈ t, c ≠ '\t')
    (indent : Nat) (rest : List Char) :
    StartsLine indent indent (Yaml.indentLines indent false t ++ rest) := by
  obtain ⟨c, more, rfl, hc⟩ := h.head
  refine ⟨?_, .inl rfl⟩
  simpa [Yaml.indentLines, hc] using ht c (by simp)

/-- One line of a block, and the empty lines after it. -/
theorem blockLines_line {indent index line : Nat} {text rest : List Char} {b : Char}
    {gap : BlockGap} (fuel : Nat) (pending g : List Char) (blank : Bool) (widest : Nat)
    (htext : ∀ c ∈ text, isLineBreak c = false) (hb : IsBreak b)
    (hgap : blockGap (some indent) (rest.length + 1) ⟨rest, index + text.length + 1, line + 1, 0⟩ =
      some gap) :
    ∃ blank', blockLines false indent (fuel + 1) pending blank
        ⟨g, widest, ⟨text ++ b :: rest, index, line, indent⟩⟩ =
      (blockLines false indent fuel [b] blank' gap).map fun found =>
        (pending ++ g ++ (text ++ found.1), found.2) := by
  have htake : (text ++ b :: rest).takeWhile (fun x => !isLineBreak x) = text :=
    takeWhile_append_stop (fun c hc => by simp [htext c hc]) (by simp [hb.isLineBreak])
  refine ⟨Cursor.atSpaceOrTab ⟨text ++ b :: rest, index, line, indent⟩, ?_⟩
  rw [blockLines]
  simp [Cursor.atEnd, htake, Cursor.advance, lineBreak?_cons hb, hgap]
  rw [Option.map_eq_bind]
  rfl

theorem blockLines_after {indent fuel : Nat} {pending : List Char} {blank : Bool} {gap : BlockGap}
    (h : gap.after.column ≠ indent) :
    blockLines false indent (fuel + 1) pending blank gap = some ([], pending, gap) := by
  rw [blockLines, if_pos (by simp [h])]

theorem blockLines_paragraphs {t rest : List Char} {indent n : Nat} (h : Paragraphs t)
    (htab : ∀ c ∈ t, c ≠ '\t') (hs : StartsLine indent n rest) (hn : n < indent) :
    ∀ (fuel : Nat) (pending : List Char) (blank : Bool) (g : List Char) (widest index line : Nat),
      t.length + 1 ≤ fuel → ∃ body b breaks widest' index' line',
        t = body ++ b :: breaks ∧ (∀ c ∈ b :: breaks, IsBreak c) ∧
          blockLines false indent fuel pending blank
              ⟨g, widest, ⟨indentLines indent false t ++ (spaces n ++ rest), index, line, indent⟩⟩ =
            some (pending ++ g ++ body, [b], ⟨breaks, widest', ⟨rest, index', line', n⟩⟩) := by
  induction h with
  | @last text b breaks hl hline hb =>
    intro fuel pending blank g widest index line hf
    obtain ⟨k, rfl⟩ : ∃ k, fuel = k + 2 := ⟨fuel - 2, by simp at hf; omega⟩
    obtain ⟨hfirst, hothers⟩ := List.forall_mem_cons.mp hb
    have hwritten : indentLines indent false (text ++ b :: breaks) ++ (spaces n ++ rest) =
        text ++ b :: (breaks ++ (spaces n ++ rest)) := by
      have hbreaks := indentLines_breaks indent [] hothers
      rw [List.append_nil] at hbreaks
      rw [indentLines_line indent b breaks hline hfirst, hbreaks]
      simp [indentLines]
    obtain ⟨widest', index', line', hgap⟩ :=
      blockGap_breaks ((breaks ++ (spaces n ++ rest)).length + 1) (index + text.length + 1)
        (line + 1) hothers (by simp) hs
    obtain ⟨blank', hread⟩ := blockLines_line (k + 1) pending g blank widest hline hfirst hgap
    refine ⟨text, b, breaks, widest', index', line', rfl, hb, ?_⟩
    rw [hwritten, hread, blockLines_after (Nat.ne_of_lt hn)]
    simp
  | @more text b breaks t hl hline hb ht ih =>
    intro fuel pending blank g widest index line hf
    obtain ⟨k, rfl⟩ : ∃ k, fuel = k + 1 := ⟨fuel - 1, by simp at hf; omega⟩
    obtain ⟨hfirst, hothers⟩ := List.forall_mem_cons.mp hb
    have htab' : ∀ c ∈ t, c ≠ '\t' := fun c hc => htab c (by simp [hc])
    have hwritten : indentLines indent false (text ++ b :: (breaks ++ t)) ++ (spaces n ++ rest) =
        text ++ b :: (breaks ++ (spaces indent ++
          (indentLines indent false t ++ (spaces n ++ rest)))) := by
      rw [indentLines_line indent b _ hline hfirst, indentLines_breaks indent t hothers,
        ht.indentLines]
      simp
    obtain ⟨widest', index', line', hgap⟩ :=
      blockGap_breaks ((breaks ++ (spaces indent ++
        (indentLines indent false t ++ (spaces n ++ rest)))).length + 1) (index + text.length + 1)
        (line + 1) hothers (by simp) (ht.startsLine htab' indent (spaces n ++ rest))
    obtain ⟨blank', hread⟩ := blockLines_line k pending g blank widest hline hfirst hgap
    obtain ⟨body, b', breaks', widest'', index'', line'', heq, hb', hmore⟩ :=
      ih htab' k [b] blank' breaks widest' index' line' (by simp at hf; omega)
    refine ⟨text ++ b :: (breaks ++ body), b', breaks', widest'', index'', line'', ?_, hb', ?_⟩
    · simp [heq]
    · rw [hwritten, hread, hmore]
      simp

/-! ## Headers -/

/-- What happens to the last line breaks of a text. -/
def lastBreaks (s : List Char) : Chomping :=
  match s.reverse with
  | [] => .strip
  | last :: before =>
    if !isLineBreak last then .strip
    else if before.isEmpty || before.head?.any isLineBreak then .keep
    else .clip

def sign : Chomping → List Char
  | .strip => ['-']
  | .clip => []
  | .keep => ['+']

theorem literalHeader_eq (s : List Char) :
    literalHeader s = (if s.head?.any isEdge then ['2'] else []) ++ sign (lastBreaks s) := by
  rw [literalHeader, lastBreaks]
  congr 1
  cases s.reverse with
  | nil => rfl
  | cons last before =>
    simp only
    split
    · rfl
    · split <;> rfl

theorem blockHeader?_written (more : List Char) (c : Cursor) (given : Bool) (chomping : Chomping)
    (hc : c.rest = (if given then ['2'] else []) ++ sign chomping ++ '\n' :: more) :
    ∃ n, blockHeader? c = some (⟨chomping, if given then some 2 else none⟩, c.advance n) ∧
      (c.advance n).rest = '\n' :: more := by
  obtain ⟨rest, index, line, column⟩ := c
  obtain rfl : rest = _ := hc
  refine ⟨((if given then ['2'] else []) ++ sign chomping).length, ?_, by simp [Cursor.advance]⟩
  cases given <;> cases chomping <;>
    simp [blockHeader?, sign, chomping?, blockIndent?, Cursor.advance]

theorem restOfLine?_break {more : List Char} {c : Cursor} (hc : c.rest = '\n' :: more) :
    c.restOfLine? = some ⟨more, c.index + 1, c.line + 1, 0⟩ := by
  obtain ⟨rest, index, line, column⟩ := c
  obtain rfl : rest = _ := hc
  simp [Cursor.restOfLine?, Cursor.skipSpacesAndTabs, Cursor.advanceWhile, isSpaceOrTab,
    Cursor.advance, Cursor.skipComment, Cursor.atBreak, Cursor.startsWith, isLineBreak,
    Cursor.skipBreak, Cursor.lineBreak?, isSeparator]

/-! ## The last line breaks -/

theorem endLine_eq_of_break {s : List Char} {c : Char} (hc : c ∈ s.getLast?)
    (hb : isLineBreak c = true) : endLine s = s := by
  rw [endLine, Option.mem_def.mp hc, Option.any_some, if_pos hb]

theorem endLine_eq_append {s : List Char} (h : ∀ c ∈ s.getLast?, isLineBreak c = false) :
    endLine s = s ++ ['\n'] := by
  rw [endLine, any_eq_false_iff.mpr h, if_neg (by decide)]

theorem lastBreaks_concat (before : List Char) (last : Char) :
    lastBreaks (before ++ [last]) =
      if isLineBreak last then
        if before.isEmpty || before.getLast?.any isLineBreak then .keep else .clip
      else .strip := by
  cases hlast : isLineBreak last <;> simp [lastBreaks, List.head?_reverse, hlast]

theorem last_mem {before start rest : List Char} {last b : Char}
    (h : before ++ [last] = start ++ b :: rest) : last ∈ b :: rest := by
  have hlast := congrArg List.getLast? h
  rw [List.getLast?_concat, List.getLast?_append_of_ne_nil _ (by simp)] at hlast
  exact List.mem_of_getLast? hlast.symm

/-- What the sign in the header leaves of the last line breaks is the text. -/
theorem chomped_eq {s start breaks : List Char} {b : Char} (hs : endLine s = start ++ b :: breaks)
    (hb : ∀ c ∈ b :: breaks, isLineBreak c = true) :
    start ++ (match lastBreaks s with
      | .strip => []
      | .clip => [b]
      | .keep => b :: breaks) = s := by
  rcases List.eq_nil_or_concat' s with rfl | ⟨before, last, rfl⟩
  · have hone : ['\n'] = start ++ b :: breaks := hs
    cases start with
    | nil => rfl
    | cons c more => simp at hone
  · rw [lastBreaks_concat]
    cases hlast : isLineBreak last with
    | false =>
      rw [endLine_eq_append (by simpa using hlast)] at hs
      rcases List.eq_nil_or_concat' breaks with rfl | ⟨others, x, rfl⟩
      · simpa using (List.append_inj' hs rfl).1.symm
      -- with two breaks at the end, one of them would be the last character of the text
      · have heq : before ++ [last] ++ ['\n'] = (start ++ b :: others) ++ [x] := by simpa using hs
        have hmem := last_mem (List.append_inj' heq rfl).1
        have hbreak := hb last (by simp at hmem ⊢; tauto)
        rw [hlast] at hbreak
        cases hbreak
    | true =>
      rw [endLine_eq_of_break (c := last) (by simp) hlast] at hs
      by_cases hkeep : (before.isEmpty || before.getLast?.any isLineBreak) = true
      · simp only [if_true, if_pos hkeep]
        exact hs.symm
      · simp only [if_true, if_neg hkeep]
        rcases List.eq_nil_or_concat' breaks with rfl | ⟨others, x, rfl⟩
        · exact hs.symm
        · have heq : before ++ [last] = (start ++ b :: others) ++ [x] := by simpa using hs
          have hbefore := (List.append_inj' heq rfl).1
          have hothers : ∀ c ∈ b :: others, isLineBreak c = true := fun c hc =>
            hb c (by simp at hc ⊢; tauto)
          refine absurd ?_ hkeep
          rw [hbefore, List.getLast?_append_of_ne_nil _ (by simp),
            List.getLast?_eq_some_getLast (by simp), Option.any_some,
            hothers _ (List.getLast_mem _), Bool.or_true]

theorem lastBreaks_of_breaks {s : List Char} (hne : s ≠ []) (hb : ∀ c ∈ s, isLineBreak c = true) :
    lastBreaks s = .keep := by
  rcases List.eq_nil_or_concat' s with rfl | ⟨before, last, rfl⟩
  · exact absurd rfl hne
  · rw [lastBreaks_concat, if_pos (hb last (by simp))]
    rcases List.eq_nil_or_concat' before with rfl | ⟨others, x, rfl⟩
    · rfl
    · simp [hb x (by simp)]

/-! ## The block -/

theorem allowsLiteral_iff {s : List Char} : allowsLiteral s = true ↔
    (∀ c ∈ s, isPrintable c = true) ∧ hasNeighbours isSpace isLineBreak s = false ∧ s ≠ [] ∧
      ∀ c ∈ s.getLast?, isSpace c = false := by
  simp [allowsLiteral, isWritable, and_assoc, any_eq_false_iff]

theorem indentLines_concat (indent : Nat) (s : List Char) (atStart : Bool) (last : Char) :
    ∃ before, indentLines indent atStart (s ++ [last]) = before ++ [last] := by
  induction s generalizing atStart with
  | nil =>
    cases hb : isLineBreak last with
    | true => exact ⟨[], by simp [indentLines, hb]⟩
    | false => exact ⟨if atStart then spaces indent else [], by simp [indentLines, hb]⟩
  | cons c more ih =>
    cases hb : isLineBreak c with
    | true =>
      obtain ⟨before, hmore⟩ := ih true
      exact ⟨c :: before, by simp [indentLines, hb, hmore]⟩
    | false =>
      obtain ⟨before, hmore⟩ := ih false
      exact ⟨(if atStart then spaces indent else []) ++ c :: before, by
        simp [indentLines, hb, hmore]⟩

theorem indentLines_newline (indent : Nat) (s : List Char) (atStart : Bool) :
    indentLines indent atStart (s ++ ['\n']) = indentLines indent atStart s ++ ['\n'] := by
  induction s generalizing atStart with
  | nil => rfl
  | cons c more ih =>
    rw [List.cons_append, indentLines, indentLines]
    split <;> simp [ih]

theorem endLine_writeLiteral {s : List Char} (indent : Nat) (hne : s ≠ []) :
    endLine (writeLiteral indent s) =
      '|' :: literalHeader s ++ '\n' :: indentLines indent true (endLine s) := by
  rcases List.eq_nil_or_concat' s with rfl | ⟨before, last, rfl⟩
  · exact absurd rfl hne
  · obtain ⟨written, hw⟩ := indentLines_concat indent before true last
    have hlast : (writeLiteral indent (before ++ [last])).getLast? = some last := by
      rw [writeLiteral, hw, ← List.cons_append, ← List.append_assoc, List.getLast?_concat]
    cases hb : isLineBreak last with
    | true =>
      rw [endLine_eq_of_break hlast hb, endLine_eq_of_break (c := last) (by simp) hb, writeLiteral]
    | false =>
      rw [endLine_eq_append (by rw [hlast]; simpa using hb),
        endLine_eq_append (by simpa using hb), indentLines_newline, writeLiteral]
      simp

theorem mem_endLine {s : List Char} {c : Char} (h : c ∈ endLine s) : c ∈ s ∨ c = '\n' := by
  rw [endLine] at h
  split at h
  · exact .inl h
  · simpa using h

theorem endLine_ends (s : List Char) : ∀ c ∈ (endLine s).getLast?, isLineBreak c = true := by
  rw [endLine]
  split
  · rename_i h
    intro c hc
    rw [Option.mem_def.mp hc] at h
    exact h
  · rw [List.getLast?_concat]
    rintro c ⟨⟩
    rfl

/-- The indent of a literal block inside a collection. -/
def literalIndent : Option Nat → Nat
  | none => 2
  | some n => n + 2

/-- The indent a header gives, or the one its first line has. -/
def blockColumn (outer : Option Nat) (given : Bool) (gap : BlockGap) : Nat :=
  if given then literalIndent outer else max (max gap.widest (leastColumn outer)) 1

/-- What the header leaves of the text and the breaks after it. -/
def chomped (chomping : Chomping) (text pending breaks : List Char) : List Char :=
  text ++ match chomping with
    | .strip => []
    | .clip => pending
    | .keep => pending ++ breaks

/-- A block is a header, empty lines and then lines. -/
theorem readBlock_eq {outer : Option Nat} {chomping : Chomping} {s body rest : List Char}
    {column : Nat} (c : Cursor) (given : Bool)
    (hc : c.rest = '|' :: ((if given then ['2'] else []) ++ sign chomping ++ '\n' :: body))
    (hbody : ∀ index line, ∃ (gap : BlockGap) (text pending : List Char) (gap' : BlockGap),
      blockGap (if given then some (literalIndent outer) else none) (body.length + 1)
        ⟨body, index, line, 0⟩ = some gap ∧
      blockLines false (blockColumn outer given gap) (body.length + 1) [] false gap =
        some (text, pending, gap') ∧
      chomped chomping text pending gap'.breaks = s ∧ gap'.after.rest = rest ∧
      gap'.after.column = column) :
    ∃ index line, readBlock false outer c = some (s, ⟨rest, index, line, column⟩) := by
  obtain ⟨n, hheader, hrest⟩ := blockHeader?_written body (c.advance 1) given chomping
    (by simp [Cursor.advance, hc])
  obtain ⟨gap, text, pending, gap', hgap, hlines, rfl, rfl, rfl⟩ :=
    hbody (((c.advance 1).advance n).index + 1) (((c.advance 1).advance n).line + 1)
  refine ⟨gap'.after.index, gap'.after.line, ?_⟩
  unfold readBlock
  cases given <;> cases outer <;>
    simp only [if_true, Bool.false_eq_true, if_false, literalIndent, blockColumn, leastColumn]
      at hgap hlines <;>
    simp only [hheader, Option.bind_eq_bind, Option.bind_some, restOfLine?_break hrest, if_true,
      Option.map_some, Bool.false_eq_true, if_false, Option.map_none, Nat.zero_add, hgap,
      hlines] <;>
    rfl

theorem mem_endLine_of_mem {s : List Char} {c : Char} (h : c ∈ s) : c ∈ endLine s := by
  rw [endLine]
  split
  · exact h
  · exact List.mem_append_left _ h

variable {outer : Option Nat} {n : Nat} {s breaks rest : List Char} {c : Cursor}

/-- A text of line breaks alone. -/
theorem readBlock_breaks (hs : endLine s = breaks) (hne : s ≠ []) (hb : ∀ c ∈ breaks, IsBreak c)
    (hstart : StartsLine (literalIndent outer) n rest) (hn : n < literalIndent outer)
    (hc : c.rest = '|' :: (['2'] ++ sign (lastBreaks s) ++
      '\n' :: (breaks ++ (spaces n ++ rest)))) :
    ∃ index line, readBlock false outer c = some (s, ⟨rest, index, line, n⟩) := by
  have hall : ∀ c ∈ s, isLineBreak c = true := fun c hc =>
    (hb c (hs ▸ mem_endLine_of_mem hc)).isLineBreak
  have hself : breaks = s := by
    rcases List.eq_nil_or_concat' s with rfl | ⟨before, last, rfl⟩
    · exact absurd rfl hne
    · rw [← hs, endLine_eq_of_break (c := last) (by simp) (hall last (by simp))]
  refine readBlock_eq c true hc fun index line => ?_
  obtain ⟨widest, index', line', hgap⟩ :=
    blockGap_breaks ((breaks ++ (spaces n ++ rest)).length + 1) index line hb (by simp) hstart
  refine ⟨_, [], [], _, hgap, blockLines_after (Nat.ne_of_lt hn), ?_, rfl, rfl⟩
  rw [lastBreaks_of_breaks hne hall]
  exact hself

/-- The lines of a block, once its indent is known. -/
theorem blockLines_text {t : List Char} (hs : endLine s = breaks ++ t) (ht : Paragraphs t)
    (htab : ∀ c ∈ t, c ≠ '\t') (hstart : StartsLine (literalIndent outer) n rest)
    (hn : n < literalIndent outer) (fuel widest index line : Nat) (hf : t.length + 1 ≤ fuel) :
    ∃ text pending gap', blockLines false (literalIndent outer) fuel [] false
        ⟨breaks, widest, ⟨indentLines (literalIndent outer) false t ++ (spaces n ++ rest),
          index, line, literalIndent outer⟩⟩ = some (text, pending, gap') ∧
      chomped (lastBreaks s) text pending gap'.breaks = s ∧ gap'.after.rest = rest ∧
      gap'.after.column = n := by
  obtain ⟨body, b, more, widest', index', line', rfl, hb, hlines⟩ :=
    blockLines_paragraphs ht htab hstart hn fuel [] false breaks widest index line hf
  refine ⟨_, _, _, hlines, ?_, rfl, rfl⟩
  exact chomped_eq (by simpa using hs) fun c hc => (hb c hc).isLineBreak

theorem length_le_indentLines (indent : Nat) (atStart : Bool) (s : List Char) :
    s.length ≤ (indentLines indent atStart s).length := by
  induction s generalizing atStart with
  | nil => simp
  | cons c rest ih =>
    rw [indentLines]
    split
    · simpa using ih true
    · have hrest := ih false
      simp only [List.length_append, List.length_cons]
      omega

/-- A text that starts with a blank or a line break. -/
theorem readBlock_given {t body : List Char} (hs : endLine s = breaks ++ t) (ht : Paragraphs t)
    (hb : ∀ c ∈ breaks, IsBreak c) (htab : ∀ c ∈ t, c ≠ '\t')
    (hstart : StartsLine (literalIndent outer) n rest) (hn : n < literalIndent outer)
    (hc : c.rest = '|' :: (['2'] ++ sign (lastBreaks s) ++ '\n' :: body))
    (hbody : body = breaks ++ (spaces (literalIndent outer) ++
      (indentLines (literalIndent outer) false t ++ (spaces n ++ rest)))) :
    ∃ index line, readBlock false outer c = some (s, ⟨rest, index, line, n⟩) := by
  have hlen := length_le_indentLines (literalIndent outer) false t
  refine readBlock_eq c true hc fun index line => ?_
  obtain ⟨widest, index', line', hgap⟩ := blockGap_breaks (body.length + 1) index line hb
    (by simp [hbody]) (ht.startsLine htab (literalIndent outer) (spaces n ++ rest))
  obtain ⟨text, pending, gap', hlines, h⟩ :=
    blockLines_text hs ht htab hstart hn (body.length + 1) widest index' line'
      (by simp [hbody]; omega)
  rw [← hbody] at hgap
  exact ⟨_, text, pending, gap', hgap, hlines, h⟩

theorem blockGap_found {indent fuel : Nat} {text : List Char} {index line : Nat}
    (htext : ∀ c ∈ text.head?, c ≠ ' ' ∧ c ≠ '\t' ∧ isLineBreak c = false) :
    blockGap none (fuel + 1) ⟨spaces indent ++ text, index, line, 0⟩ =
      some ⟨[], indent, ⟨text, index + indent, line, indent⟩⟩ := by
  have htake : (spaces indent ++ text).takeWhile (· = ' ') = spaces indent :=
    takeWhile_append_stop (fun c hc => by simpa using eq_space_of_mem_spaces hc)
      fun c hc => by simpa using (htext c hc).1
  have hend : Cursor.lineBreak? ⟨text, index + indent, line, indent⟩ = none :=
    lineBreak?_eq_none fun c hc => (htext c hc).2.2
  have htab : text.head? ≠ some '\t' := fun h => (htext '\t' h).2.1 rfl
  have hdrop : (spaces indent ++ text).drop indent = text := by simp
  rw [blockGap]
  simp [htake, Cursor.advance, hdrop, htab, hend]

theorem blockColumn_found {gap : BlockGap} (h : gap.widest = literalIndent outer) :
    blockColumn outer false gap = literalIndent outer := by
  cases outer <;> simp [blockColumn, h, literalIndent, leastColumn]

/-- A text that starts with a line shows its indent. -/
theorem readBlock_found {body : List Char} (ht : Paragraphs (endLine s))
    (htab : ∀ c ∈ endLine s, c ≠ '\t') (hspace : ∀ c ∈ (endLine s).head?, c ≠ ' ')
    (hstart : StartsLine (literalIndent outer) n rest) (hn : n < literalIndent outer)
    (hc : c.rest = '|' :: ([] ++ sign (lastBreaks s) ++ '\n' :: body))
    (hbody : body = spaces (literalIndent outer) ++
      (indentLines (literalIndent outer) false (endLine s) ++ (spaces n ++ rest))) :
    ∃ index line, readBlock false outer c = some (s, ⟨rest, index, line, n⟩) := by
  have hlen := length_le_indentLines (literalIndent outer) false (endLine s)
  refine readBlock_eq c false hc fun index line => ?_
  have hgap : blockGap none (body.length + 1) ⟨body, index, line, 0⟩ = some
      ⟨[], literalIndent outer, ⟨indentLines (literalIndent outer) false (endLine s) ++
        (spaces n ++ rest), index + literalIndent outer, line, literalIndent outer⟩⟩ := by
    rw [hbody]
    apply blockGap_found
    obtain ⟨x, more, heq, hx⟩ := ht.head
    rw [heq] at hspace htab ⊢
    simpa [indentLines, hx] using ⟨hspace x (by simp), htab x (by simp)⟩
  obtain ⟨text, pending, gap', hlines, h⟩ :=
    blockLines_text (s := s) (List.nil_append _).symm ht htab hstart hn (body.length + 1)
      (literalIndent outer) (index + literalIndent outer) line (by simp [hbody]; omega)
  refine ⟨_, text, pending, gap', hgap, ?_, h⟩
  rw [blockColumn_found rfl]
  exact hlines

/-- What follows a value stands left of a literal block at its place. -/
theorem Follows.lt_literalIndent (hf : Follows outer n rest) : n < literalIndent outer := by
  cases outer with
  | none =>
    have hn : n = 0 := hf.2.1
    simp [hn, literalIndent]
  | some k =>
    have hn : n ≤ k := hf.2
    simp [literalIndent]
    omega

theorem Follows.startsLine (hf : Follows outer n rest) : StartsLine (literalIndent outer) n rest :=
  ⟨fun c hc => ⟨hf.1.not_tab c hc, hf.1.not_break c hc⟩,
    .inr ⟨Follows.lt_literalIndent hf, hf.1.not_space⟩⟩

theorem readBlock_written (h : allowsLiteral s = true) (hf : Follows outer n rest)
    (hc : c.rest = endLine (writeLiteral (literalIndent outer) s) ++ (spaces n ++ rest)) :
    ∃ index line, readBlock false outer c = some (s, ⟨rest, index, line, n⟩) := by
  obtain ⟨hp, -, hne, -⟩ := allowsLiteral_iff.mp h
  have hprint : ∀ c ∈ endLine s, isPrintable c = true := by
    intro c hc
    rcases mem_endLine hc with hc | rfl
    · exact hp c hc
    · rfl
  have htab : ∀ c ∈ endLine s, c ≠ '\t' := by
    rintro c hc rfl
    exact absurd (hprint _ hc) (by decide)
  rw [endLine_writeLiteral _ hne, literalHeader_eq] at hc
  obtain ⟨breaks, t, heq, hb, ht⟩ :=
    exists_paragraphs (fun c hc => isBreak_of_printable (hprint c hc)) (endLine_ends s)
  have hbreaks := indentLines_breaks (literalIndent outer) t hb
  rw [← heq] at hbreaks
  have htab' : ∀ c ∈ t, c ≠ '\t' := fun c hc => htab c (by simp [heq, hc])
  have hstart := Follows.startsLine hf
  have hn := Follows.lt_literalIndent hf
  cases hedge : s.head?.any isEdge with
  | true =>
    -- the first line does not show the indent, so that the header gives it
    simp only [hedge, if_true, hbreaks] at hc
    rcases ht with rfl | ht
    · exact readBlock_breaks (by simpa using heq) hne hb hstart hn
        (by simpa [indentLines] using hc)
    · refine readBlock_given heq ht hb htab' hstart hn ?_ rfl
      simpa [ht.indentLines] using hc
  | false =>
    have hhead : (endLine s).head? = s.head? := by
      obtain ⟨x, more, rfl⟩ := List.exists_cons_of_ne_nil hne
      rw [endLine]
      split <;> rfl
    have hnot := any_eq_false_iff.mp hedge
    obtain rfl : breaks = [] := by
      cases breaks with
      | nil => rfl
      | cons b more =>
        have hb' := hnot b (by rw [← hhead, heq]; rfl)
        simp [isEdge, (hb b (by simp)).isLineBreak] at hb'
    obtain rfl : endLine s = t := heq
    have ht : Paragraphs (endLine s) := ht.resolve_left fun hnil => by
      rw [hnil] at hhead
      exact hne (List.head?_eq_none_iff.mp hhead.symm)
    refine readBlock_found ht htab (fun c hc => ?_) hstart hn ?_ rfl
    · have hc' := hnot c (hhead ▸ hc)
      rintro rfl
      exact absurd hc' (by decide)
    · simpa [ht.indentLines, hedge] using hc

/-- A literal block is scanned as one token. -/
theorem scans_literal (h : allowsLiteral s = true) (outer : Option Nat) :
    Scans outer (endLine (writeLiteral (literalIndent outer) s)) [.scalar .literal s] := by
  intro p n rest hp ho _ hf
  obtain ⟨more, hmore⟩ : ∃ more, p.rest = '|' :: more := by
    rw [hp, endLine_writeLiteral _ (allowsLiteral_iff.mp h).2.2.1]
    exact ⟨_, rfl⟩
  apply Leads.of_next (by simp [hmore])
  · intro index line
    have hnext : (p.scan none index line).next = (p.scan none index line).blockScalar false := by
      simp [Scan.next, scan, boundary?, hmore, Scan.inFlow]
    have hdrop : (p.scan none index line).dropKey = some (p.scan none index line) := by
      simp [Scan.dropKey, scan, Scan.key, Scan.setKey]
    have hindent : (p.scan none index line).indent = outer := ho
    have hcursor : (p.scan none index line).cursor.rest = _ := hp
    obtain ⟨index', line', hread⟩ := readBlock_written h hf hcursor
    refine ⟨_, index', line', ?_, settle_spaces (n := 0)
      (p := ⟨rest, n, true, p.indents, .scalar .literal s :: p.tokens⟩) rfl hf.1 (Gone.none _)⟩
    rw [hnext, Scan.blockScalar, hdrop]
    simp only [Option.bind_eq_bind, Option.bind_some, hindent, hread]
    rfl
  · have hlen := congrArg List.length hp
    rw [endLine_writeLiteral _ (allowsLiteral_iff.mp h).2.2.1] at hlen
    simp [closed] at hlen ⊢
    omega

end ClusterConfig.Yaml
