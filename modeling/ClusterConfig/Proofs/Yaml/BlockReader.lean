import ClusterConfig.Proofs.Yaml.GapReader

/-!
# Block scalars in front of another text

A block scalar is read line by line; behind its last line of text it ends with the blank lines before
the next line that is not indented as its text. Its text does not depend on these, but for the line
breaks that a scalar keeps which asks for them.
-/

set_option autoImplicit false

namespace ClusterConfig.Yaml

variable {c d : Cursor} {q r x y z : List Char} {indent : Option Nat} {n fuel : Nat} {g : BlockGap}

/-! ## The line breaks before a line -/

/-- How many of some spaces belong to the indent at a column. -/
def indentSpaces (indent : Option Nat) (column spaces : Nat) : Nat :=
  match indent with
  | some n => min spaces (n - column)
  | none => spaces

/-- No space of a text belongs to the indent at a column. -/
def Indented (indent : Option Nat) (column : Nat) (s : List Char) : Prop :=
  s.head? = some ' ' → ∃ n ∈ indent, n ≤ column

theorem indentSpaces_eq_zero {column : Nat} (h : Indented indent column r) :
    indentSpaces indent column (r.takeWhile (· = ' ')).length = 0 := by
  cases r with
  | nil => cases indent <;> simp [indentSpaces]
  | cons e r =>
    by_cases he : e = ' '
    · obtain ⟨n, rfl, hn⟩ := h (by rw [he]; rfl)
      simp only [indentSpaces]
      omega
    · cases indent <;> simp [indentSpaces, he]

theorem indentSpaces_append {column : Nat} (hx : ∀ e ∈ x, e = ' ')
    (hn : ∀ n ∈ indent, x = [] ∨ column + x.length ≤ n) (h : Indented indent (column + x.length) r) :
    indentSpaces indent column ((x ++ r).takeWhile (· = ' ')).length = x.length := by
  have htake : (x ++ r).takeWhile (· = ' ') = x ++ r.takeWhile (· = ' ') :=
    List.takeWhile_append_of_pos (by simpa using hx)
  rw [htake, List.length_append]
  have hzero := indentSpaces_eq_zero h
  cases indent with
  | none =>
    simp only [indentSpaces] at hzero ⊢
    omega
  | some n =>
    simp only [indentSpaces] at hzero ⊢
    obtain rfl | hn := hn n rfl
    · simpa using hzero
    · omega

namespace BlockGap

/-- A gap behind some line breaks. -/
def behind (breaks : List Char) (widest : Nat) (gap : BlockGap) : BlockGap :=
  ⟨breaks ++ gap.breaks, max widest gap.widest, gap.after⟩

theorem behind_comp (a b : List Char) (m n : Nat) :
    behind a m ∘ behind b n = behind (a ++ b) (max m n) := by
  funext gap
  simp [behind, Nat.max_assoc]

end BlockGap

/-- What a gap does behind the indent of a line. -/
def blockGapFrom (indent : Option Nat) (fuel : Nat) (c : Cursor) : Option BlockGap :=
  if c.rest.head? = some '\t' && indent.all (c.column < ·) then none
  else
    match c.lineBreak? with
    | none => some ⟨[], c.column, c⟩
    | some (b, next) => (blockGap indent fuel next).map (.behind [b] c.column)

theorem blockGap_succ (fuel : Nat) (c : Cursor) :
    blockGap indent (fuel + 1) c = blockGapFrom indent fuel
      (c.advance (indentSpaces indent c.column (c.rest.takeWhile (· = ' ')).length)) := by
  rw [blockGap.eq_def, blockGapFrom]
  simp only [Option.map_eq_bind]
  cases indent <;> rfl

theorem blockGap_spaces (hx : ∀ e ∈ x, e = ' ') {index line column : Nat}
    (hn : ∀ n ∈ indent, x = [] ∨ column + x.length ≤ n) (h : Indented indent (column + x.length) r) :
    blockGap indent (fuel + 1) ⟨x ++ r, index, line, column⟩ =
      blockGapFrom indent fuel ⟨r, index + x.length, line, column + x.length⟩ := by
  rw [blockGap_succ, indentSpaces_append hx hn h]
  simp [Cursor.advance]

/-- A gap where no spaces are read. -/
theorem blockGap_here {index line column : Nat} (h : Indented indent column r) :
    blockGap indent (fuel + 1) ⟨r, index, line, column⟩ =
      blockGapFrom indent fuel ⟨r, index, line, column⟩ :=
  blockGap_spaces (x := []) (by simp) (by simp) h

/-- Every line starts with the spaces of its indent. -/
theorem exists_indent (indent : Option Nat) (column : Nat) (s : List Char) :
    ∃ x r, s = x ++ r ∧ (∀ e ∈ x, e = ' ') ∧ (∀ n ∈ indent, x = [] ∨ column + x.length ≤ n) ∧
      Indented indent (column + x.length) r := by
  have hspaces : ∀ e ∈ s.takeWhile (· = ' '), e = ' ' := fun e he => by
    simpa using List.mem_takeWhile_imp he
  cases indent with
  | none =>
    refine ⟨_, _, (List.takeWhile_append_dropWhile (p := (· = ' '))).symm, hspaces, by simp, ?_⟩
    intro hhead
    have hstop := List.head?_dropWhile_not (· = ' ') s
    simp [hhead] at hstop
  | some n =>
    refine ⟨(s.takeWhile (· = ' ')).take (n - column),
      (s.takeWhile (· = ' ')).drop (n - column) ++ s.dropWhile (· = ' '), ?_,
      fun e he => hspaces e (List.mem_of_mem_take he), ?_, ?_⟩
    · rw [← List.append_assoc, List.take_append_drop, List.takeWhile_append_dropWhile]
    · rintro m hm
      obtain rfl : n = m := by simpa using hm
      by_cases hle : n ≤ column
      · left
        simp [Nat.sub_eq_zero_of_le hle]
      · right
        rw [List.length_take]
        omega
    · intro hhead
      refine ⟨n, rfl, ?_⟩
      rw [List.length_take]
      by_contra hlt
      have hdrop : (s.takeWhile (· = ' ')).drop (n - column) = [] :=
        List.drop_eq_nil_of_le (by omega)
      rw [hdrop, List.nil_append] at hhead
      have hstop := List.head?_dropWhile_not (· = ' ') s
      simp [hhead] at hstop

/-- What is left of a text that goes on behind a line break with what another line leaves. -/
theorem append_of_break {b w : List Char} (hb : ∃ e ∈ b.getLast?, isLineBreak e)
    (hz : ∀ e ∈ z, isLineBreak e = false) (h : y ++ z = b ++ w) : ∃ y', y = b ++ y' ∧ w = y' ++ z := by
  obtain ⟨e, he, hbreak⟩ := hb
  obtain ⟨v, rfl, rfl⟩ | ⟨v, rfl, rfl⟩ := List.append_eq_append_iff.mp h
  · by_cases hv : v = []
    · exact ⟨[], by simp [hv], by simp [hv]⟩
    · have hmem : e ∈ v := by
        rw [List.getLast?_append_of_ne_nil _ hv] at he
        exact List.mem_of_getLast? he
      have hnot := hz e (List.mem_append_left _ hmem)
      simp [hbreak] at hnot
  · exact ⟨v, rfl, rfl⟩

/-- A gap starts with a line: its indent, and a line break and more lines or its end. -/
theorem blockGap_cases (h : blockGap indent (fuel + 1) c = some g) :
    ∃ x s, c.rest = x ++ s ∧ (∀ e ∈ x, e = ' ') ∧ (∀ n ∈ indent, x = [] ∨ c.column + x.length ≤ n) ∧
      Indented indent (c.column + x.length) s ∧
      ((g = ⟨[], c.column + x.length, ⟨s, c.index + x.length, c.line, c.column + x.length⟩⟩ ∧
          ¬(s.head? = some '\t' && indent.all (c.column + x.length < ·)) = true ∧
          s.head?.all (!isLineBreak ·)) ∨
        ∃ b next g', Cursor.lineBreak? ⟨s, c.index + x.length, c.line, c.column + x.length⟩ =
            some (b, next) ∧ blockGap indent fuel next = some g' ∧
          g = g'.behind [b] (c.column + x.length)) := by
  obtain ⟨text, index, line, column⟩ := c
  obtain ⟨x, s, rfl, hx, hn, hs⟩ := exists_indent indent column text
  rw [blockGap_spaces hx hn hs, blockGapFrom, Option.ite_none_left_eq_some] at h
  refine ⟨x, s, rfl, hx, hn, hs, ?_⟩
  simp only at h
  cases hb : Cursor.lineBreak? ⟨s, index + x.length, line, column + x.length⟩ with
  | none =>
    rw [hb] at h
    refine .inl ⟨(Option.some.inj h.2).symm, h.1, ?_⟩
    cases s with
    | nil => rfl
    | cons e s =>
      cases he : isLineBreak e with
      | false => simp [he]
      | true =>
        obtain ⟨b, next, hnext⟩ := lineBreak?_of_break he s (index + x.length) line (column + x.length)
        rw [hb] at hnext
        cases hnext
  | some found =>
    rw [hb] at h
    obtain ⟨g', hg', heq⟩ := Option.map_eq_some_iff.mp h.2
    exact .inr ⟨found.1, found.2, g', rfl, hg', heq.symm⟩

/-- Behind a gap there is no more indent, no tab in its place and no line break. -/
theorem blockGap_after (h : blockGap indent fuel c = some g) :
    Indented indent g.after.column g.after.rest ∧
      ¬(g.after.rest.head? = some '\t' && indent.all (g.after.column < ·)) = true ∧
      g.after.rest.head?.all (!isLineBreak ·) := by
  induction fuel generalizing c g with
  | zero => cases h
  | succ fuel ih =>
    obtain ⟨x, s, hc, -, -, hs, ⟨rfl, htab, hbreak⟩ | ⟨b, next, g', hb, hg', rfl⟩⟩ := blockGap_cases h
    · exact ⟨hs, htab, hbreak⟩
    · exact (ih hg' :)

theorem blockGap_suffix (h : blockGap indent fuel c = some g) : g.after.rest <:+ c.rest := by
  induction fuel generalizing c g with
  | zero => cases h
  | succ fuel ih =>
    obtain ⟨x, s, hc, -, -, -, ⟨rfl, -⟩ | ⟨b, next, g', hb, hg', rfl⟩⟩ := blockGap_cases h
    · exact ⟨x, hc.symm⟩
    · obtain ⟨br, hbr, -⟩ := lineBreak?_eq_some hb
      obtain ⟨w, hw⟩ := ih hg'
      refine ⟨x ++ (br ++ w), ?_⟩
      rw [hc, show s = br ++ next.rest from hbr, ← hw]
      simp [BlockGap.behind]

/-- A gap up to some spaces before its end. Before another text it is the same gap, with the lines
that the other text adds to it. -/
theorem blockGap_again (h : blockGap indent fuel c = some g)
    (hc : c.rest = y ++ (z ++ g.after.rest)) (hz : ∀ e ∈ z, isLineBreak e = false) :
    z.length ≤ g.after.column ∧ c.line ≤ g.after.line ∧
      ∃ widest, (z = [] → max widest g.after.column = g.widest) ∧
        ∀ r i fuel', (y ++ r).length < fuel' → Indented indent (g.after.column - z.length) r →
          SameBreak y (z ++ g.after.rest) r →
          ∃ left, r.length < left ∧ blockGap indent fuel' ⟨y ++ r, i, c.line, c.column⟩ =
            (blockGap indent left ⟨r, i + y.length, g.after.line, g.after.column - z.length⟩).map
              (.behind g.breaks widest) := by
  induction fuel generalizing c y g with
  | zero => cases h
  | succ fuel ih =>
    obtain ⟨x, s, hxs, hx, hn, hs, ⟨rfl, -⟩ | ⟨b, next, g', hb, hg', rfl⟩⟩ := blockGap_cases h
    · obtain rfl : x = y ++ z := by
        rw [hxs, ← List.append_assoc] at hc
        exact List.append_cancel_right hc
      have hcolumn : c.column + (y ++ z).length - z.length = c.column + y.length := by
        rw [List.length_append]
        omega
      refine ⟨by simp; omega, le_rfl, 0, by simp, fun r i fuel' hf hr _ => ?_⟩
      simp only [hcolumn] at hr ⊢
      obtain ⟨k, rfl⟩ : ∃ k, fuel' = k + 1 := ⟨fuel' - 1, by omega⟩
      have hyn : ∀ n ∈ indent, y = [] ∨ c.column + y.length ≤ n := by
        intro n hmem
        obtain hnil | hle := hn n hmem
        · exact .inl (List.append_eq_nil_iff.mp hnil).1
        · rw [List.length_append] at hle
          exact .inr (by omega)
      refine ⟨k + 1, by simp at hf; omega, ?_⟩
      rw [blockGap_spaces (fun e he => hx e (List.mem_append_left _ he)) hyn hr, blockGap_here hr,
        show BlockGap.behind [] 0 = id from funext fun gap => by simp [BlockGap.behind]]
      simp
    · obtain ⟨br, hbr, hne, hbreaks, hnext, hagain⟩ := lineBreak?_eq_some hb
      obtain ⟨w, hw⟩ := blockGap_suffix hg'
      have hlast : ∃ e ∈ (x ++ br).getLast?, isLineBreak e := by
        rw [List.getLast?_append_of_ne_nil _ hne]
        exact ⟨_, List.getLast?_eq_some_getLast hne, hbreaks _ (List.getLast_mem hne)⟩
      obtain ⟨y', rfl, rfl⟩ : ∃ y', y = x ++ br ++ y' ∧ w = y' ++ z := by
        apply append_of_break hlast hz
        rw [hxs, show s = br ++ next.rest from hbr, ← hw] at hc
        simp only [BlockGap.behind, ← List.append_assoc] at hc ⊢
        exact (List.append_cancel_right hc).symm
      obtain ⟨hcolumn, hline, widest, hwidest, hmore⟩ := ih hg' (y := y')
        (by rw [← hw, List.append_assoc])
      rw [hnext] at hline hmore
      refine ⟨hcolumn, (Nat.le_succ _).trans hline, max (c.column + x.length) widest, fun hnil => ?_,
        fun r i fuel' hf hr hsame => ?_⟩
      · rw [Nat.max_assoc]
        exact congrArg _ (hwidest hnil)
      · obtain ⟨k, rfl⟩ : ∃ k, fuel' = k + 1 := ⟨fuel' - 1, by omega⟩
        have hpos := List.length_pos_iff.mpr hne
        obtain ⟨left, hleft, hread⟩ := hmore r (i + x.length + br.length) k
          (by simp only [List.length_append] at hf ⊢; omega) hr hsame.of_append
        refine ⟨left, hleft, ?_⟩
        obtain ⟨e, br', rfl⟩ := List.exists_cons_of_ne_nil hne
        have he : isLineBreak e = true := hbreaks e (by simp)
        have hspace : e ≠ ' ' ∧ e ≠ '\t' := by
          constructor <;> rintro rfl <;> cases he
        have hb' := hagain (y' ++ r) (i + x.length) c.line (c.column + x.length) (by
          have hrest : next.rest = y' ++ (z ++ g'.after.rest) := by rw [← hw, List.append_assoc]
          rw [hrest]
          exact hsame.append.of_append)
        rw [List.append_assoc, List.append_assoc, blockGap_spaces hx hn (by simp [Indented, hspace]),
          blockGapFrom, if_neg (by simp [hspace]), hb']
        simp only [hread, Option.map_map, BlockGap.behind_comp]
        simp [BlockGap.behind, Nat.add_assoc, Nat.add_comm, Nat.add_left_comm]

/-- A gap is read again before any text that starts with the same character. -/
theorem blockGap_same (h : blockGap indent fuel c = some g) :
    ∃ x, c.rest = x ++ g.after.rest ∧ c.line ≤ g.after.line ∧
      ∀ r i fuel', (x ++ r).length < fuel' → r.head? = g.after.rest.head? →
        blockGap indent fuel' ⟨x ++ r, i, c.line, c.column⟩ =
          some ⟨g.breaks, g.widest, ⟨r, i + x.length, g.after.line, g.after.column⟩⟩ := by
  obtain ⟨hindent, htab, hbreak⟩ := blockGap_after h
  obtain ⟨x, hx⟩ := blockGap_suffix h
  obtain ⟨-, hline, widest, hwidest, hagain⟩ := blockGap_again (z := []) h hx.symm (by simp)
  refine ⟨x, hx.symm, hline, fun r i fuel' hf hr => ?_⟩
  have hbreak' : r.head?.all (!isLineBreak ·) := by rwa [hr]
  obtain ⟨left, hleft, hread⟩ := hagain r i fuel' hf (by
    intro hhead
    exact hindent (by rwa [← hr])) (by
    intro _ hhead
    simp [hhead, isLineBreak] at hbreak')
  obtain ⟨k, rfl⟩ : ∃ k, left = k + 1 := ⟨left - 1, by omega⟩
  have hnone : Cursor.lineBreak? ⟨r, i + x.length, g.after.line, g.after.column⟩ = none := by
    apply lineBreak?_eq_none
    intro e he
    simpa [Option.mem_def.mp he] using hbreak'
  rw [hread, List.length_nil, Nat.sub_zero, blockGap_here fun hhead => hindent (by rwa [← hr]),
    blockGapFrom]
  simp only [hnone]
  rw [if_neg (by rwa [hr])]
  simp [BlockGap.behind, hwidest rfl]

/-- A gap in front of a text that goes on beyond it is as wide before any other end of the text. -/
theorem blockGap_widest {g₁ : BlockGap} {i : Nat} (hg : blockGap indent (c.rest.length + 1) c = some g)
    (hc : c.rest = y ++ z) (hz : z.length < g.after.rest.length)
    (hg₁ : blockGap indent ((y ++ r).length + 1) ⟨y ++ r, i, c.line, c.column⟩ = some g₁) :
    g₁.widest = g.widest := by
  obtain ⟨x, hx, -, hagain⟩ := blockGap_same hg
  obtain ⟨v, rfl⟩ : ∃ v, y = x ++ v := by
    obtain ⟨v, hv, -⟩ | ⟨v, -, hv⟩ := List.append_eq_append_iff.mp (hx.symm.trans hc)
    · exact ⟨v, hv⟩
    · rw [hv, List.length_append] at hz
      omega
  rw [hc, List.append_assoc] at hx
  have hrest := List.append_cancel_left hx
  rw [List.append_assoc, hagain (v ++ r) i _ (Nat.lt_succ_self _) (by
    rw [← hrest] at hz ⊢
    cases v with
    | nil => simp at hz
    | cons f v => rfl)] at hg₁
  cases hg₁
  rfl

/-! ## Lines of text -/

/-- A line of text, what its break reads as, and the start of the next line. -/
def blockLine (c : Cursor) : List Char × List Char × Cursor :=
  let line := c.rest.takeWhile fun x => !isLineBreak x
  let d := c.advance line.length
  match d.lineBreak? with
  | some (b, next) => (line, [b], next)
  | none => (line, [], d)

theorem blockLine_of {l s : List Char} (hl : ∀ e ∈ l, isLineBreak e = false)
    (hs : s.head?.all isLineBreak) (index line column : Nat) :
    blockLine ⟨l ++ s, index, line, column⟩ =
      match Cursor.lineBreak? ⟨s, index + l.length, line, column + l.length⟩ with
      | some (b, next) => (l, [b], next)
      | none => (l, [], ⟨s, index + l.length, line, column + l.length⟩) := by
  have htake : (l ++ s).takeWhile (fun x => !isLineBreak x) = l := by
    apply takeWhile_append_stop
    · simpa using hl
    · intro e he
      simpa [Option.mem_def.mp he] using hs
  simp only [blockLine, htake, Cursor.advance, List.drop_left]

theorem blockLine_again (hc : c.rest ≠ []) :
    ∃ x, c.rest = x ++ (blockLine c).2.2.rest ∧ x ≠ [] ∧ c.line ≤ (blockLine c).2.2.line ∧
      ((blockLine c).2.2.rest = [] ∨ (blockLine c).2.2.column = 0 ∧ ∃ e ∈ x.getLast?, isLineBreak e) ∧
      ∀ r i, SameBreak x (blockLine c).2.2.rest r → ((blockLine c).2.2.rest = [] → r = []) →
        blockLine ⟨x ++ r, i, c.line, c.column⟩ =
          ((blockLine c).1, (blockLine c).2.1,
            ⟨r, i + x.length, (blockLine c).2.2.line, (blockLine c).2.2.column⟩) := by
  obtain ⟨text, index, line, column⟩ := c
  obtain ⟨l, s, rfl, hl, hs⟩ := exists_line text
  have hline := blockLine_of hl hs index line column
  cases s with
  | nil =>
    rw [lineBreak?_eq_none (by simp)] at hline
    rw [hline]
    refine ⟨l, rfl, by simpa using hc, le_rfl, .inl rfl, fun r i _ hr => ?_⟩
    obtain rfl := hr rfl
    rw [blockLine_of hl hs, lineBreak?_eq_none (by simp)]
  | cons e s =>
    obtain ⟨b, next, hb⟩ := lineBreak?_of_break (by simpa using hs) s (index + l.length) line
      (column + l.length)
    rw [hb] at hline
    rw [hline]
    obtain ⟨x, hx, hne, hbreaks, hnext, hagain⟩ := lineBreak?_eq_some hb
    have hlast : ∃ f ∈ (l ++ x).getLast?, isLineBreak f := by
      rw [List.getLast?_append_of_ne_nil _ hne]
      exact ⟨_, List.getLast?_eq_some_getLast hne, hbreaks _ (List.getLast_mem hne)⟩
    refine ⟨l ++ x, by rw [List.append_assoc]; exact congrArg _ hx, by simp [hne], ?_,
      .inr ⟨by rw [hnext], hlast⟩, fun r i hr _ => ?_⟩
    · rw [hnext]
      exact Nat.le_succ line
    · obtain ⟨f, x', rfl⟩ := List.exists_cons_of_ne_nil hne
      rw [List.append_assoc, blockLine_of hl (by simpa using hbreaks f (by simp)),
        hagain r _ _ _ hr.of_append, hnext]
      simp [Nat.add_assoc]

/-! ## The text -/

/-- The line breaks before a line of text, as they are read. -/
def blockLead (folded : Bool) (pending : List Char) (blankBefore : Bool) (gap : BlockGap) :
    List Char :=
  (if folded && pending = ['\n'] && !blankBefore && !gap.after.atSpaceOrTab then
    if gap.breaks.isEmpty then [' '] else [] else pending) ++ gap.breaks

/-- The text ends behind this gap. -/
def blockEnds (n : Nat) (gap : BlockGap) : Bool := gap.after.column ≠ n || gap.after.atEnd

/-- The text from a gap on. -/
def blockBody (indent : Option Nat) (folded : Bool) (n fuel : Nat) (pending : List Char)
    (blankBefore : Bool) (c : Cursor) : Option (List Char × List Char × BlockGap) :=
  (blockGap indent (c.rest.length + 1) c).bind (blockLines folded n fuel pending blankBefore)

theorem blockLines_succ {folded blankBefore : Bool} {pending : List Char} (gap : BlockGap) :
    blockLines folded n (fuel + 1) pending blankBefore gap =
      if blockEnds n gap then some ([], pending, gap)
      else (blockBody (some n) folded n fuel (blockLine gap.after).2.1 gap.after.atSpaceOrTab
        (blockLine gap.after).2.2).map fun found =>
          (blockLead folded pending blankBefore gap ++ ((blockLine gap.after).1 ++ found.1),
            found.2) := by
  rw [blockLines, blockEnds, blockBody, blockLine]
  simp only [Option.map_eq_bind]
  split
  · rfl
  · cases (gap.after.advance (gap.after.rest.takeWhile fun x => !isLineBreak x).length).lineBreak? <;>
      simp [blockLead, Option.bind_assoc]

section Body

variable {folded blankBefore : Bool} {pending text ending more : List Char} {known : Option Nat}
  {e : Cursor} {g₀ : BlockGap}

/-- Behind a gap the text ends, or goes on with a line. -/
theorem blockBody_cases
    (h : blockBody indent folded n (fuel + 1) pending blankBefore c = some (text, ending, g)) :
    ∃ g₀, blockGap indent (c.rest.length + 1) c = some g₀ ∧
      ((blockEnds n g₀ = true ∧ text = [] ∧ ending = pending ∧ g = g₀) ∨
        (blockEnds n g₀ = false ∧ ∃ more,
          blockBody (some n) folded n fuel (blockLine g₀.after).2.1 g₀.after.atSpaceOrTab
            (blockLine g₀.after).2.2 = some (more, ending, g) ∧
          text = blockLead folded pending blankBefore g₀ ++ ((blockLine g₀.after).1 ++ more))) := by
  obtain ⟨g₀, hg₀, h⟩ := Option.bind_eq_some_iff.mp h
  refine ⟨g₀, hg₀, ?_⟩
  rw [blockLines_succ] at h
  cases hends : blockEnds n g₀ with
  | true =>
    rw [hends] at h
    cases h
    exact .inl ⟨rfl, rfl, rfl, rfl⟩
  | false =>
    rw [hends] at h
    obtain ⟨⟨more, found⟩, hmore, heq⟩ := Option.map_eq_some_iff.mp h
    obtain ⟨rfl, rfl⟩ := Prod.mk.inj heq
    exact .inr ⟨rfl, more, hmore, rfl⟩

/-- The text of a block scalar up to the line `e` behind its last line, and the gap that it ends in. -/
structure BodyParts (indent : Option Nat) (folded : Bool) (n : Nat) (pending : List Char)
    (blankBefore : Bool) (c : Cursor) (text ending : List Char) (g : BlockGap) (y : List Char)
    (e : Cursor) (known : Option Nat) : Prop where
  rest : c.rest = y ++ e.rest
  atIndent : known = some n ∨ known = indent ∧ y = [] ∧ e = c
  line : c.line ≤ e.line
  gap : blockGap known (e.rest.length + 1) e = some g
  ends : blockEnds n g = true
  start : e.rest = [] ∨ y = [] ∧ e = c ∨ e.column = 0 ∧ ∃ b ∈ y.getLast?, isLineBreak b
  goes : ∀ g₀, blockGap indent (c.rest.length + 1) c = some g₀ →
    blockEnds n g₀ = true ∨ e.rest.length < g₀.after.rest.length
  again : ∀ r i fuel' g', (y ++ r).length < fuel' → SameBreak y e.rest r → (e.rest = [] → r = []) →
    blockGap known (r.length + 1) ⟨r, i + y.length, e.line, e.column⟩ = some g' →
      blockEnds n g' = true →
        blockBody indent folded n fuel' pending blankBefore ⟨y ++ r, i, c.line, c.column⟩ =
          some (text, ending, g')

/-- No line of text stands in front of a gap that the text ends in. -/
theorem bodyParts_nil (hg : blockGap indent (c.rest.length + 1) c = some g)
    (hends : blockEnds n g = true) :
    BodyParts indent folded n pending blankBefore c [] pending g [] c indent where
  rest := rfl
  atIndent := .inr ⟨rfl, rfl, rfl⟩
  line := le_rfl
  gap := hg
  ends := hends
  start := .inr (.inl ⟨rfl, rfl⟩)
  goes g₀ hg₀ := by
    obtain rfl := Option.some.inj (hg.symm.trans hg₀)
    exact .inl hends
  again r i fuel' g' hf _ _ hg' hends' := by
    obtain ⟨k, rfl⟩ : ∃ k, fuel' = k + 1 := ⟨fuel' - 1, by omega⟩
    rw [blockBody]
    simp only [List.nil_append, List.length_nil, Nat.add_zero] at hg' ⊢
    rw [hg', Option.bind_some, blockLines_succ, if_pos hends']

/-- A line of text in front of other lines. -/
theorem BodyParts.behind_line (hg₀ : blockGap indent (c.rest.length + 1) c = some g₀)
    (hends : blockEnds n g₀ = false)
    (h : BodyParts (some n) folded n (blockLine g₀.after).2.1 g₀.after.atSpaceOrTab
      (blockLine g₀.after).2.2 more ending g y e known) :
    ∃ x, BodyParts indent folded n pending blankBefore c
      (blockLead folded pending blankBefore g₀ ++ ((blockLine g₀.after).1 ++ more)) ending g
      (x ++ y) e (some n) := by
  obtain rfl : known = some n := h.atIndent.elim id And.left
  have hne : g₀.after.rest ≠ [] := by
    rintro hnil
    simp [blockEnds, Cursor.atEnd, hnil] at hends
  obtain ⟨x₀, hx₀, hx₀line, hx₀again⟩ := blockGap_same hg₀
  obtain ⟨x₁, hx₁, hx₁ne, hx₁line, hx₁start, hx₁again⟩ := blockLine_again hne
  have hrest := h.rest
  have hstart := h.start
  have hagain := h.again
  obtain ⟨f, w, rfl⟩ := List.exists_cons_of_ne_nil hx₁ne
  generalize blockLine g₀.after = found at *
  refine ⟨x₀ ++ f :: w, by rw [hx₀, hx₁, hrest]; simp, .inl rfl,
    hx₀line.trans (hx₁line.trans h.line), h.gap, h.ends, ?_, fun g₁ hg₁ => .inr ?_,
    fun r i fuel' g' hf hr hend hg' hends' => ?_⟩
  · -- behind the last line a line starts, or the text is over
    obtain hnil | ⟨rfl, rfl⟩ | ⟨hcolumn, b, hb, hbreak⟩ := hstart
    · exact .inl hnil
    · refine hx₁start.imp_right fun hstart => .inr ⟨hstart.1, ?_⟩
      simpa [List.getLast?_append_of_ne_nil _ hx₁ne] using hstart.2
    · refine .inr (.inr ⟨hcolumn, b, ?_, hbreak⟩)
      rw [List.getLast?_append, Option.mem_def.mp hb]
      rfl
  · obtain rfl := Option.some.inj (hg₀.symm.trans hg₁)
    simp only [hx₁, hrest, List.length_append, List.length_cons]
    omega
  · obtain ⟨k, rfl⟩ : ∃ k, fuel' = k + 1 := ⟨fuel' - 1, by omega⟩
    rw [List.append_assoc] at hr
    have hgap := hx₀again ((f :: w) ++ (y ++ r)) i _ (Nat.lt_succ_self _) (by rw [hx₁]; rfl)
    have hline := hx₁again (y ++ r) (i + x₀.length) (by
      rw [hrest]
      exact hr.of_append.append) (by
      rw [hrest, List.append_eq_nil_iff, List.append_eq_nil_iff]
      exact fun hnil => ⟨hnil.1, hend hnil.2⟩)
    have hbody := hagain r (i + x₀.length + (f :: w).length) k g' (by
      simp only [List.length_append, List.length_cons] at hf ⊢
      omega) hr.of_append.of_append hend (by
      simp only [List.length_append] at hg'
      simpa only [Nat.add_assoc] using hg') hends'
    have hends₀ : blockEnds n ⟨g₀.breaks, g₀.widest, ⟨(f :: w) ++ (y ++ r), i + x₀.length,
        g₀.after.line, g₀.after.column⟩⟩ = false := by
      simpa [blockEnds, Cursor.atEnd, hne] using hends
    have hblank : Cursor.atSpaceOrTab ⟨(f :: w) ++ (y ++ r), i + x₀.length, g₀.after.line,
        g₀.after.column⟩ = g₀.after.atSpaceOrTab := by
      simp [Cursor.atSpaceOrTab, Cursor.startsWith, hx₁]
    rw [blockBody]
    simp only [List.append_assoc] at hgap ⊢
    rw [hgap, Option.bind_some, blockLines_succ, if_neg ((Bool.not_eq_true _).mpr hends₀)]
    simp only [hline, hblank, hbody, blockLead, Option.map_some]

/-- The text of a block scalar is read line by line up to the gap it ends in. -/
theorem blockBody_parts
    (h : blockBody indent folded n fuel pending blankBefore c = some (text, ending, g)) :
    ∃ y e known, BodyParts indent folded n pending blankBefore c text ending g y e known := by
  induction fuel generalizing c indent pending blankBefore text with
  | zero =>
    obtain ⟨g₀, -, h⟩ := Option.bind_eq_some_iff.mp h
    cases h
  | succ fuel ih =>
    obtain ⟨g₀, hg₀, ⟨hends, rfl, rfl, rfl⟩ | ⟨hends, more, hmore, rfl⟩⟩ := blockBody_cases h
    · exact ⟨[], c, indent, bodyParts_nil hg₀ hends⟩
    · obtain ⟨y, e, known, hparts⟩ := ih hmore
      obtain ⟨x, hx⟩ := hparts.behind_line hg₀ hends
      exact ⟨_, _, _, hx⟩

end Body

/-! ## The header -/

theorem chomping?_firstWord (s : List Char) : chomping? s = chomping? (firstWord s) := by
  cases s with
  | nil => rfl
  | cons a s =>
    cases ha : isSpaceOrBreak a with
    | false =>
      rw [firstWord_cons, ha, if_neg (by simp)]
      by_cases hplus : a = '+'
      · rw [hplus]
        rfl
      · by_cases hminus : a = '-'
        · rw [hminus]
          rfl
        · simp [chomping?, hplus, hminus]
    | true =>
      have hmark : a ≠ '+' ∧ a ≠ '-' := by constructor <;> rintro rfl <;> cases ha
      simp [firstWord_cons, ha, chomping?, hmark]

theorem blockIndent?_firstWord (s : List Char) : blockIndent? s = blockIndent? (firstWord s) := by
  cases s with
  | nil => rfl
  | cons a s =>
    cases ha : isSpaceOrBreak a with
    | false =>
      rw [firstWord_cons, ha, if_neg (by simp)]
      rfl
    | true =>
      have hzero : a ≠ '0' := by
        rintro rfl
        cases ha
      have hdigit := ofWords_isDigit.of_space ha
      simp [firstWord_cons, ha, blockIndent?, hzero, hdigit]

theorem chomping?_congr {s : List Char} (h : firstWord r = firstWord s) :
    chomping? r = chomping? s := by
  rw [chomping?_firstWord, h, ← chomping?_firstWord]

theorem blockIndent?_congr {s : List Char} (h : firstWord r = firstWord s) :
    blockIndent? r = blockIndent? s := by
  rw [blockIndent?_firstWord, h, ← blockIndent?_firstWord]

theorem chomping?_eq_some {chomping : Chomping} (h : chomping? x = some chomping) :
    ∃ a s, x = a :: s ∧ isSpaceOrBreak a = false ∧ ∀ r, chomping? (a :: r) = some chomping := by
  unfold chomping? at h
  split at h
  · exact ⟨_, _, rfl, rfl, fun r => h⟩
  · exact ⟨_, _, rfl, rfl, fun r => h⟩
  · cases h

theorem blockIndent?_eq_some {k : Nat} (h : blockIndent? x = some (some k)) :
    ∃ a s, x = a :: s ∧ isSpaceOrBreak a = false ∧ 1 ≤ k ∧
      ∀ r, blockIndent? (a :: r) = some (some k) := by
  unfold blockIndent? at h
  split at h
  · rename_i a s
    rw [Option.ite_none_left_eq_some] at h
    obtain ⟨hzero, h⟩ := h
    have hk := Option.some.inj h
    rw [Option.ite_none_right_eq_some] at hk
    refine ⟨a, s, rfl, ofWords_isDigit a hk.1, ?_, fun r => (if_neg hzero).trans h⟩
    have hdigit := hk.1
    rw [Char.isDigit, Bool.and_eq_true, decide_eq_true_eq, decide_eq_true_eq] at hdigit
    have hne : a.toNat ≠ '0'.toNat := fun heq => hzero (Char.toNat_inj.mp heq)
    have hle : '0'.toNat ≤ a.toNat := hdigit.1
    have := Option.some.inj hk.2
    omega
  · cases h

theorem takesWord_blockHeader? {header : BlockHeader} (h : blockHeader? c = some (header, d)) :
    TakesWord blockHeader? c header d ∧ ∀ n ∈ header.indent, 1 ≤ n := by
  obtain ⟨text, index, line, column⟩ := c
  rw [blockHeader?] at h
  simp only [Option.bind_eq_bind, Option.pure_def] at h
  cases hchomp : chomping? text with
  | some chomping =>
    obtain ⟨a, s, rfl, ha, hagain⟩ := chomping?_eq_some hchomp
    rw [hchomp] at h
    obtain ⟨indent, hindent, h⟩ := Option.bind_eq_some_iff.mp h
    simp only [Cursor.advance, List.drop_succ_cons, List.drop_zero] at hindent h
    cases indent with
    | none =>
      obtain ⟨rfl, rfl⟩ := Prod.mk.inj (Option.some.inj h)
      refine ⟨⟨[a], rfl, by simpa using ha, rfl, fun r i hr => ?_⟩, by simp⟩
      have hnone : blockIndent? r = some none := (blockIndent?_congr hr).trans hindent
      simp [blockHeader?, hagain, Cursor.advance, hnone]
    | some k =>
      obtain ⟨rfl, rfl⟩ := Prod.mk.inj (Option.some.inj h)
      obtain ⟨b, s, rfl, hb, hk, hbagain⟩ := blockIndent?_eq_some hindent
      refine ⟨⟨[a, b], rfl, by simpa using ⟨ha, hb⟩, rfl, fun r i hr => ?_⟩, by simpa using hk⟩
      simp [blockHeader?, hagain, Cursor.advance, hbagain]
  | none =>
    rw [hchomp] at h
    obtain ⟨indent, hindent, h⟩ := Option.bind_eq_some_iff.mp h
    cases indent with
    | none =>
      obtain ⟨rfl, rfl⟩ := Prod.mk.inj (Option.some.inj h)
      refine ⟨⟨[], rfl, by simp, rfl, fun r i hr => ?_⟩, by simp⟩
      have hnone : blockIndent? r = some none := (blockIndent?_congr hr).trans hindent
      have hchomp' : chomping? r = none := (chomping?_congr hr).trans hchomp
      simp [blockHeader?, hchomp', hnone]
    | some k =>
      obtain ⟨b, s, rfl, hb, hk, hbagain⟩ := blockIndent?_eq_some hindent
      have hnone (r : List Char) : chomping? (b :: r) = none := by
        unfold chomping? at hchomp ⊢
        split at hchomp <;> simp_all
      simp only [Option.isNone_some, Bool.false_eq_true, if_false, Cursor.advance,
        List.drop_succ_cons, List.drop_zero] at h
      cases hchomp' : chomping? s with
      | some chomping =>
        rw [hchomp'] at h
        obtain ⟨rfl, rfl⟩ := Prod.mk.inj (Option.some.inj h)
        obtain ⟨a, s, rfl, ha, hagain⟩ := chomping?_eq_some hchomp'
        refine ⟨⟨[b, a], rfl, by simpa using ⟨hb, ha⟩, rfl, fun r i hr => ?_⟩, by simpa using hk⟩
        simp [blockHeader?, hnone, hbagain, Cursor.advance, hagain]
      | none =>
        rw [hchomp'] at h
        obtain ⟨rfl, rfl⟩ := Prod.mk.inj (Option.some.inj h)
        refine ⟨⟨[b], rfl, by simpa using hb, rfl, fun r i hr => ?_⟩, by simpa using hk⟩
        have hchomp'' : chomping? r = none := (chomping?_congr hr).trans hchomp'
        simp [blockHeader?, hnone, hbagain, Cursor.advance, hchomp'']

/-! ## The scalar -/

/-- The column that the text has to reach where its header does not tell. -/
def blockLeast (parent : Option Nat) : Nat :=
  match parent with
  | some n => n + 1
  | none => 0

def blockKnown (parent : Option Nat) (header : BlockHeader) : Option Nat :=
  header.indent.map fun n => (match parent with | some m => m | none => 0) + n

def blockIndentOf (least : Nat) (known : Option Nat) (widest : Nat) : Nat :=
  match known with
  | some n => n
  | none => max (max widest least) 1

/-- The text ends behind a gap that its indent is known before or is told by. -/
def blockStops (least : Nat) (known : Option Nat) (gap : BlockGap) : Bool :=
  blockEnds (blockIndentOf least known gap.widest) gap

def chompedBreaks (chomping : Chomping) (pending breaks : List Char) : List Char :=
  match chomping with
  | .strip => []
  | .clip => pending
  | .keep => pending ++ breaks

theorem blockGap_column (h : blockGap (some n) fuel c = some g) (hc : c.column ≤ n) :
    g.after.column ≤ n := by
  induction fuel generalizing c g with
  | zero => cases h
  | succ fuel ih =>
    obtain ⟨x, s, -, -, hn, -, ⟨rfl, -⟩ | ⟨b, next, g', hb, hg', rfl⟩⟩ := blockGap_cases h
    · obtain rfl | hle := hn n rfl
      · simpa using hc
      · exact hle
    · obtain ⟨br, -, -, -, hnext, -⟩ := lineBreak?_eq_some hb
      have hzero : next.column = 0 := by rw [hnext]
      exact (ih hg' (by omega) :)

/-- The line that ends a block scalar starts with a word, a comment included. -/
theorem atWord_of_blockStops {least : Nat} (hc : c.rest = [] ∨ c.column = 0)
    (h : blockGap indent fuel c = some g) (hstop : blockStops least indent g = true) :
    AtWord g.after.rest := by
  obtain ⟨hindent, htab, hbreak⟩ := blockGap_after h
  rw [AtWord]
  cases hq : g.after.rest with
  | nil => rfl
  | cons e q =>
    rw [hq] at hindent htab hbreak
    -- a blank could only stand where the text goes on
    have hgoes : ∀ n ∈ indent, n ≤ g.after.column → False := by
      rintro n rfl hle
      have hcolumn : g.after.column ≤ n := by
        obtain hnil | hzero := hc
        · have hsuffix := (blockGap_suffix h).length_le
          rw [hnil, hq] at hsuffix
          simp at hsuffix
        · exact blockGap_column h (by omega)
      rw [blockStops, blockEnds, Bool.or_eq_true, decide_eq_true_eq] at hstop
      obtain hne | hend := hstop
      · exact hne (le_antisymm hcolumn hle)
      · simp [Cursor.atEnd, hq] at hend
    have hspace : e ≠ ' ' := by
      rintro rfl
      obtain ⟨n, hn, hle⟩ := hindent rfl
      exact hgoes n hn hle
    have htab' : e ≠ '\t' := by
      rintro rfl
      apply htab
      rw [Bool.and_eq_true]
      refine ⟨by simp, ?_⟩
      cases indent with
      | none => rfl
      | some n => simpa using fun hle => hgoes n rfl hle
    simpa [isSpaceOrBreak, isSpaceOrTab, hspace, htab'] using hbreak

/-- A block scalar behind the line of its header. -/
def blockContent (folded : Bool) (parent : Option Nat) (header : BlockHeader) (c : Cursor) :
    Option (List Char × Cursor) :=
  (blockGap (blockKnown parent header) (c.rest.length + 1) c).bind fun gap =>
    (blockLines folded (blockIndentOf (blockLeast parent) (blockKnown parent header) gap.widest)
      (c.rest.length + 1) [] false gap).map fun found =>
        (found.1 ++ chompedBreaks header.chomping found.2.1 found.2.2.breaks, found.2.2.after)

theorem readBlock_eq_bind (folded : Bool) (parent : Option Nat) (c : Cursor) :
    readBlock folded parent c = (blockHeader? (c.advance 1)).bind fun found =>
      found.2.restOfLine?.bind (blockContent folded parent found.1) := by
  rw [readBlock.eq_def]
  refine congrArg (Option.bind _) (funext fun found => congrArg (Option.bind _) (funext fun c =>
    congrArg (Option.bind _) (funext fun gap => ?_)))
  rw [Option.map_eq_bind (x := blockLines _ _ _ _ _ _)]
  rfl

theorem blockGap_nil (hc : c.rest = []) :
    blockGap indent (fuel + 1) c = some ⟨[], c.column, c⟩ := by
  obtain ⟨text, index, line, column⟩ := c
  obtain rfl : text = [] := hc
  exact blockGap_here (by simp [Indented])

theorem blockContent_nil (folded : Bool) (parent : Option Nat) (header : BlockHeader)
    (hc : c.rest = []) : blockContent folded parent header c = some ([], c) := by
  rw [blockContent, blockGap_nil hc, Option.bind_some, blockLines_succ,
    if_pos (by simp [blockEnds, Cursor.atEnd, hc])]
  cases header.chomping <;> simp [chompedBreaks]

/-- A block scalar up to the line behind its last line of text, and the gap that it ends in. -/
structure BlockParts (folded : Bool) (parent : Option Nat) (header : BlockHeader) (c : Cursor)
    (text : List Char) (d : Cursor) (y : List Char) (e : Cursor) (known : Option Nat)
    (g : BlockGap) : Prop where
  rest : c.rest = y ++ e.rest
  line : c.line ≤ e.line
  start : e.rest = [] ∨ y = [] ∧ e = c ∨ e.column = 0 ∧ ∃ b ∈ y.getLast?, isLineBreak b
  least : ∀ n ∈ known, max (blockLeast parent) 1 ≤ n
  gap : blockGap known (e.rest.length + 1) e = some g
  after : g.after = d
  stops : blockStops (blockLeast parent) known g = true
  again : ∀ r i g', SameBreak y e.rest r → (e.rest = [] → r = []) →
    blockGap known (r.length + 1) ⟨r, i + y.length, e.line, e.column⟩ = some g' →
      blockStops (blockLeast parent) known g' = true →
        (header.chomping = .keep → g'.breaks = g.breaks) →
          blockContent folded parent header ⟨y ++ r, i, c.line, c.column⟩ = some (text, g'.after)

theorem le_of_blockKnown {header : BlockHeader} (hpos : ∀ n ∈ header.indent, 1 ≤ n)
    (parent : Option Nat) : ∀ n ∈ blockKnown parent header, max (blockLeast parent) 1 ≤ n := by
  intro n hn
  obtain ⟨k, hk, rfl⟩ := Option.map_eq_some_iff.mp hn
  have := hpos k hk
  cases parent <;> simp only [blockLeast] <;> omega

theorem le_blockIndentOf {least width : Nat} {known : Option Nat}
    (h : ∀ n ∈ known, max least 1 ≤ n) : max least 1 ≤ blockIndentOf least known width := by
  cases known with
  | some n => exact h n rfl
  | none =>
    simp only [blockIndentOf]
    omega

/-- Only a scalar that keeps its last line breaks asks for those of the gap. -/
theorem chompedBreaks_congr {chomping : Chomping} {pending breaks breaks' : List Char}
    (h : chomping = .keep → breaks' = breaks) :
    chompedBreaks chomping pending breaks' = chompedBreaks chomping pending breaks := by
  cases chomping with
  | keep => rw [h rfl]
  | _ => rfl

theorem blockContent_parts {folded : Bool} {parent : Option Nat} {header : BlockHeader}
    {text : List Char} (hpos : ∀ n ∈ header.indent, 1 ≤ n)
    (h : blockContent folded parent header c = some (text, d)) :
    ∃ y e known g, BlockParts folded parent header c text d y e known g := by
  obtain ⟨g₀, hg₀, h⟩ := Option.bind_eq_some_iff.mp h
  obtain ⟨⟨more, pending, g⟩, hlines, heq⟩ := Option.map_eq_some_iff.mp h
  obtain ⟨rfl, rfl⟩ := Prod.mk.inj heq
  have hknown := le_of_blockKnown hpos parent
  generalize hn : blockIndentOf (blockLeast parent) (blockKnown parent header) g₀.widest = n at hlines
  cases hends : blockEnds n g₀ with
  | true =>
    -- there is no text
    rw [blockLines_succ, if_pos hends] at hlines
    cases hlines
    refine ⟨[], c, _, g₀, rfl, le_rfl, .inr (.inl ⟨rfl, rfl⟩), hknown, hg₀, rfl,
      by rwa [blockStops, hn], fun r i g' _ _ hg' hstops hkeep => ?_⟩
    rw [blockContent]
    simp only [List.nil_append, List.length_nil, Nat.add_zero] at hg' ⊢
    rw [blockStops] at hstops
    rw [hg', Option.bind_some, blockLines_succ, if_pos hstops]
    simp only [Option.map_some, List.nil_append, chompedBreaks_congr hkeep]
  | false =>
    have hbody : blockBody (blockKnown parent header) folded n (c.rest.length + 1) [] false c =
        some (more, pending, g) := by rw [blockBody, hg₀]; exact hlines
    obtain ⟨y, e, known, hparts⟩ := blockBody_parts hbody
    have hlt : e.rest.length < g₀.after.rest.length :=
      (hparts.goes g₀ hg₀).resolve_left ((Bool.not_eq_true _).mpr hends)
    obtain rfl : known = some n := by
      obtain hsome | ⟨-, -, rfl⟩ := hparts.atIndent
      · exact hsome
      · have hle := (blockGap_suffix hg₀).length_le
        omega
    refine ⟨y, e, some n, g, hparts.rest, hparts.line, hparts.start, ?_, hparts.gap, rfl,
      hparts.ends, fun r i g' hr hend hg' hstops hkeep => ?_⟩
    · rw [← hn]
      simpa using le_blockIndentOf hknown
    · -- the indent is found as before, as the first line of text is there in both texts
      have hbody' := hparts.again r i ((y ++ r).length + 1) g' (Nat.lt_succ_self _) hr hend hg' hstops
      obtain ⟨g₁, hg₁, hlines'⟩ := Option.bind_eq_some_iff.mp hbody'
      have hwidest := blockGap_widest hg₀ hparts.rest hlt hg₁
      rw [blockContent]
      simp only
      rw [hg₁, Option.bind_some, hwidest, hn, hlines']
      simp only [Option.map_some, chompedBreaks_congr hkeep]

end ClusterConfig.Yaml
