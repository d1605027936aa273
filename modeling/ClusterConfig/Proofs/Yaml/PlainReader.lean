import ClusterConfig.Proofs.Yaml.GapReader

/-!
# Plain scalars in front of another text

A plain scalar is read word by word. Which words belong to it depends on what stands behind the gap
after each of them, so it is split into its words and what ends it.
-/

set_option autoImplicit false

namespace ClusterConfig.Yaml

variable {c d e : Cursor} {q r s x y blanks : List Char} {flow : Bool} {indent fuel : Nat}

/-! ## Words -/

theorem cons_of_firstWord {a : Char} (ha : isSpaceOrBreak a = false)
    (h : firstWord r = firstWord (a :: s)) : ∃ q, r = a :: q ∧ firstWord q = firstWord s := by
  rw [firstWord_cons, if_neg (by simp [ha])] at h
  cases r with
  | nil => cases h
  | cons b q =>
    cases hb : isSpaceOrBreak b with
    | true => simp [firstWord_cons, hb] at h
    | false =>
      simp only [firstWord_cons, hb, Bool.false_eq_true, if_false, List.cons.injEq] at h
      exact ⟨q, by rw [h.1], h.2⟩

/-- What may not follow a colon inside brackets. -/
def isColonMark (c : Char) : Bool := isFlowIndicator c || c = '?'

theorem ofWords_isColonMark : OfWords isColonMark :=
  ofWords_of (by simp [isColonMark, isFlowIndicator])

theorem plainRun_end (h : firstWord r = []) : plainRun flow r = some [] := by
  cases r with
  | nil => rfl
  | cons a r =>
    cases ha : isSpaceOrBreak a with
    | true => rw [plainRun, if_pos ha]
    | false => simp [firstWord_cons, ha] at h

/-- What a run does at a character of a word depends on the word behind it. -/
theorem plainRun_cons {a : Char} (ha : isSpaceOrBreak a = false) (s : List Char) :
    plainRun flow (a :: s) =
      if flow && a = ':' && s.head?.any isColonMark then none
      else if (a = ':' && endsWord s) || (flow && isFlowIndicator a) then some []
      else (plainRun flow s).map (a :: ·) := by
  rw [plainRun, if_neg (by simp [ha])]
  rfl

theorem plainRun_again {run : List Char} (h : plainRun flow s = some run) :
    ∃ q, s = run ++ q ∧ (∀ a ∈ run, isSpaceOrBreak a = false) ∧
      ∀ r, firstWord r = firstWord q → plainRun flow (run ++ r) = some run := by
  induction s generalizing run with
  | nil =>
    cases h
    exact ⟨[], rfl, by simp, fun r hr => plainRun_end hr⟩
  | cons a s ih =>
    cases ha : isSpaceOrBreak a with
    | true =>
      rw [plainRun, if_pos ha] at h
      cases h
      exact ⟨a :: s, rfl, by simp,
        fun r hr => plainRun_end (hr.trans (by rw [firstWord_cons, if_pos ha]))⟩
    | false =>
      rw [plainRun_cons ha, Option.ite_none_left_eq_some] at h
      obtain ⟨hmark, h⟩ := h
      split at h
      · rename_i hstop
        cases h
        refine ⟨a :: s, rfl, by simp, fun r hr => ?_⟩
        obtain ⟨q, rfl, hq⟩ := cons_of_firstWord ha hr
        rw [List.nil_append, plainRun_cons ha, head?_any_congr ofWords_isColonMark hq,
          if_neg hmark, endsWord_congr hq, if_pos hstop]
      · rename_i hgo
        obtain ⟨run', hrun, rfl⟩ := Option.map_eq_some_iff.mp h
        obtain ⟨q, rfl, hword, hagain⟩ := ih hrun
        refine ⟨q, rfl, ?_, fun r hr => ?_⟩
        · simpa using ⟨ha, hword⟩
        · have hsame := firstWord_append hr run'
          rw [List.cons_append, plainRun_cons ha, head?_any_congr ofWords_isColonMark hsame,
            if_neg hmark, endsWord_congr hsame, if_neg hgo, hagain r hr]
          rfl

/-! ## What ends a scalar -/

/-- A plain scalar does not go on here: a document does, or a comment, or there is no word. -/
def stopsPlain (flow : Bool) (c : Cursor) : Bool :=
  (boundary? c).isSome || c.rest.head? = some '#' || plainRun flow c.rest = some []

theorem stopsPlain_congr (h : firstWord d.rest = firstWord c.rest) (hc : d.column = c.column)
    (hstop : stopsPlain flow c = true) : stopsPlain flow d = true := by
  have hmark : OfWords (fun a => a = '#') := ofWords_of (by simp)
  have hhead := head?_any_congr hmark h
  simp only [stopsPlain, Bool.or_eq_true, decide_eq_true_eq] at hstop ⊢
  obtain (hb | hcomment) | hrun := hstop
  · exact .inl (.inl (by rwa [boundary?_congr h hc]))
  · left; right
    rw [hcomment] at hhead
    cases hd : d.rest.head? with
    | none => simp [hd] at hhead
    | some a => simpa [hd] using hhead
  · right
    obtain ⟨q, hq, -, hagain⟩ := plainRun_again hrun
    obtain rfl : c.rest = q := hq
    exact hagain d.rest h

theorem startsWith_space_iff (c : Cursor) :
    c.startsWith isSpaceOrBreak = false ↔ AtWord c.rest := by
  rw [Cursor.startsWith, AtWord]
  cases c.rest.head? <;> simp

/-- A gap that starts with a space or a break does so before any text. -/
theorem startsWith_space_again (hspace : c.startsWith isSpaceOrBreak = true) (hc : c.rest = x ++ q)
    (hx : ∀ a ∈ x, isSpaceOrBreak a) (hq : AtWord q) (hd : d.rest = x ++ r) :
    d.startsWith isSpaceOrBreak = true := by
  cases x with
  | nil =>
    rw [List.nil_append] at hc
    rw [(startsWith_space_iff c).mpr (hc ▸ hq)] at hspace
    cases hspace
  | cons a x =>
    rw [Cursor.startsWith, hd]
    simpa using hx a (by simp)

/-- Where a plain scalar ends behind its last word, and whether a line break was passed. -/
def plainEnd (flow : Bool) (indent : Nat) (c : Cursor) : Option (Bool × Cursor) :=
  if c.startsWith isSpaceOrBreak then
    (Gap.read indent (c.rest.length + 1) c).bind fun found =>
      if (!flow && found.2.column < indent) || stopsPlain flow found.2 then
        some (!found.1.breaks.isEmpty, found.2)
      else none
  else some (false, c)

/-- A word is read where the scalar does not stop, then its end or more words behind a gap. -/
theorem plainFrom_succ (fuel : Nat) (gap : Gap) (c : Cursor) :
    plainFrom flow indent (fuel + 1) gap c =
      if stopsPlain flow c then some ⟨[], !gap.breaks.isEmpty, c⟩
      else (plainRun flow c.rest).bind fun run =>
        if (c.advance run.length).startsWith isSpaceOrBreak then
          (Gap.read indent ((c.advance run.length).rest.length + 1) (c.advance run.length)).bind
            fun found =>
              if !flow && found.2.column < indent then
                some ⟨gap.folded ++ run, !found.1.breaks.isEmpty, found.2⟩
              else (plainFrom flow indent fuel found.1 found.2).map fun more =>
                { more with text := gap.folded ++ run ++ more.text }
        else some ⟨gap.folded ++ run, false, c.advance run.length⟩ := by
  rw [plainFrom, stopsPlain]
  by_cases hstop : ((boundary? c).isSome || c.rest.head? = some '#') = true
  · rw [if_pos hstop, hstop, Bool.true_or, if_pos rfl]
  · rw [if_neg hstop]
    simp only [Bool.not_eq_true] at hstop
    rw [hstop, Bool.false_or]
    cases hrun : plainRun flow c.rest with
    | none => rfl
    | some run =>
      simp only [Option.bind_eq_bind, Option.bind_some, Option.pure_def]
      cases run with
      | nil => simp
      | cons a run =>
        simp only [List.isEmpty_cons, Bool.false_eq_true, if_false, Option.some.injEq,
          reduceCtorEq, decide_false]
        cases hspace : (c.advance (a :: run).length).startsWith isSpaceOrBreak with
        | false => simp
        | true =>
          simp only [Bool.not_true, Bool.false_eq_true, if_false, if_true, Option.map_eq_bind]
          congr 1

/-- What is found behind a word is the end of the scalar. -/
theorem plainFrom_last {gap : Gap} {run : List Char} {passed : Bool}
    (hstop : stopsPlain flow c = false) (hrun : plainRun flow c.rest = some run)
    (hend : plainEnd flow indent (c.advance run.length) = some (passed, d)) :
    plainFrom flow indent (fuel + 2) gap c = some ⟨gap.folded ++ run, passed, d⟩ := by
  rw [plainFrom_succ, hstop, if_neg (by simp), hrun, Option.bind_some]
  rw [plainEnd] at hend
  split at hend
  · rename_i hspace
    obtain ⟨⟨gap', e⟩, hgap, hend⟩ := Option.bind_eq_some_iff.mp hend
    rw [Option.ite_none_right_eq_some] at hend
    obtain ⟨hends, heq⟩ := hend
    obtain ⟨rfl, rfl⟩ := Prod.mk.inj (Option.some.inj heq)
    rw [if_pos hspace, hgap, Option.bind_some]
    split
    · rfl
    · rename_i hcolumn
      have hstop' : stopsPlain flow e = true := by simpa [hcolumn] using hends
      rw [plainFrom_succ, hstop', if_pos rfl]
      simp
  · rename_i hspace
    obtain ⟨rfl, rfl⟩ := Prod.mk.inj (Option.some.inj hend)
    rw [if_neg hspace]

/-- A word is the last one, or more words follow behind a gap. -/
theorem plainFrom_cases {gap : Gap} {found : PlainScalar} (hstop : stopsPlain flow c = false)
    (h : plainFrom flow indent (fuel + 1) gap c = some found) :
    ∃ run, run ≠ [] ∧ plainRun flow c.rest = some run ∧
      ((found.text = gap.folded ++ run ∧
          plainEnd flow indent (c.advance run.length) = some (found.passedBreak, found.after)) ∨
        ∃ gap' e more, (c.advance run.length).startsWith isSpaceOrBreak = true ∧
          Gap.read indent ((c.advance run.length).rest.length + 1) (c.advance run.length) =
            some (gap', e) ∧
          (!flow && e.column < indent) = false ∧ stopsPlain flow e = false ∧
          plainFrom flow indent fuel gap' e = some more ∧
          found = { more with text := gap.folded ++ run ++ more.text }) := by
  rw [plainFrom_succ, hstop, if_neg (by simp)] at h
  obtain ⟨run, hrun, h⟩ := Option.bind_eq_some_iff.mp h
  have hne : run ≠ [] := by
    rintro rfl
    simp [stopsPlain, hrun] at hstop
  refine ⟨run, hne, hrun, ?_⟩
  rw [plainEnd]
  split at h
  · rename_i hspace
    rw [if_pos hspace]
    obtain ⟨⟨gap', e⟩, hgap, h⟩ := Option.bind_eq_some_iff.mp h
    rw [hgap, Option.bind_some]
    split at h
    · rename_i hcolumn
      cases h
      exact .inl ⟨rfl, by simp [hcolumn]⟩
    · rename_i hcolumn
      obtain ⟨more, hmore, rfl⟩ := Option.map_eq_some_iff.mp h
      cases hstop' : stopsPlain flow e with
      | true =>
        left
        cases fuel with
        | zero => cases hmore
        | succ fuel =>
          rw [plainFrom_succ, hstop', if_pos rfl] at hmore
          cases hmore
          simp
      | false => exact .inr ⟨gap', e, more, hspace, rfl, by simpa using hcolumn, hstop', hmore, rfl⟩
  · rename_i hspace
    rw [if_neg hspace]
    cases h
    exact .inl ⟨rfl, rfl⟩

/-- A word at which the scalar does not stop is read again before any text that goes on with the same
word. -/
theorem plainWord_again {run : List Char} (hstop : stopsPlain flow c = false)
    (hrun : plainRun flow c.rest = some run) :
    ∃ q, c.rest = run ++ q ∧ (∀ a ∈ run, isSpaceOrBreak a = false) ∧
      ∀ r i, firstWord r = firstWord q →
        stopsPlain flow ⟨run ++ r, i, c.line, c.column⟩ = false ∧
          plainRun flow (run ++ r) = some run := by
  obtain ⟨q, hq, hword, hagain⟩ := plainRun_again hrun
  refine ⟨q, hq, hword, fun r i hr => ⟨?_, hagain r hr⟩⟩
  by_contra hstop'
  rw [Bool.not_eq_false] at hstop'
  have hback := stopsPlain_congr (c := ⟨run ++ r, i, c.line, c.column⟩) (d := c)
    (hq ▸ firstWord_append hr.symm run) rfl hstop'
  rw [hstop] at hback
  cases hback

/-- A plain scalar up to the end `e` of its last word. -/
structure PlainWords (flow : Bool) (indent : Nat) (gap : Gap) (c : Cursor) (found : PlainScalar)
    (y : List Char) (e : Cursor) : Prop where
  rest : c.rest = y ++ e.rest
  first : ∃ a ∈ y.head?, isSpaceOrBreak a = false
  last : ∃ a ∈ y.getLast?, isSpaceOrBreak a = false
  line : c.line ≤ e.line
  ends : plainEnd flow indent e = some (found.passedBreak, found.after)
  again : ∀ r i k passed d, (y ++ r).length < k → firstWord r = firstWord e.rest →
    plainEnd flow indent ⟨r, i + y.length, e.line, e.column⟩ = some (passed, d) →
      plainFrom flow indent k gap ⟨y ++ r, i, c.line, c.column⟩ = some ⟨found.text, passed, d⟩

section Words

variable {gap gap' : Gap} {found more : PlainScalar} {run : List Char} {e' : Cursor}

/-- The last word of a scalar. -/
theorem plainWords_last (hstop : stopsPlain flow c = false) (hne : run ≠ [])
    (hrun : plainRun flow c.rest = some run) (htext : found.text = gap.folded ++ run)
    (hend : plainEnd flow indent (c.advance run.length) = some (found.passedBreak, found.after)) :
    PlainWords flow indent gap c found run (c.advance run.length) := by
  obtain ⟨q, hq, hword, hagain⟩ := plainWord_again hstop hrun
  have hrest : (c.advance run.length).rest = q := by simp [Cursor.advance, hq]
  exact {
    rest := by rw [hrest, hq]
    first := ⟨_, List.head?_eq_some_head hne, hword _ (List.head_mem hne)⟩
    last := ⟨_, List.getLast?_eq_some_getLast hne, hword _ (List.getLast_mem hne)⟩
    line := le_rfl
    ends := hend
    again := fun r i k passed d hk hr hd => by
      have hpos := List.length_pos_iff.mpr hne
      obtain ⟨k, rfl⟩ : ∃ n, k = n + 2 := ⟨k - 2, by simp at hk; omega⟩
      obtain ⟨hstop', hrun'⟩ := hagain r i (hr.trans (by rw [hrest]))
      rw [htext, plainFrom_last hstop' hrun']
      simpa [Cursor.advance] using hd }

/-- A word in front of other words, which follow behind a gap. -/
theorem PlainWords.behind_word (hstop : stopsPlain flow c = false) (hne : run ≠ [])
    (hrun : plainRun flow c.rest = some run)
    (hspace : (c.advance run.length).startsWith isSpaceOrBreak = true)
    (hgap : Gap.read indent ((c.advance run.length).rest.length + 1) (c.advance run.length) =
      some (gap', e))
    (hcolumn : (!flow && e.column < indent) = false)
    (h : PlainWords flow indent gap' e more y e') :
    ∃ x, PlainWords flow indent gap c { more with text := gap.folded ++ run ++ more.text }
      (run ++ (x ++ y)) e' := by
  obtain ⟨q, hq, hword, hagain⟩ := plainWord_again hstop hrun
  obtain ⟨x, hx, hxs, heword, hxline, hxagain⟩ := Gap.read_word hgap
  obtain ⟨b, hb, hbw⟩ := h.first
  obtain ⟨g, hg, hgw⟩ := h.last
  have hrest : (c.advance run.length).rest = q := by simp [Cursor.advance, hq]
  have hqx : q = x ++ e.rest := hrest.symm.trans hx
  refine ⟨x, by rw [hq, hqx, h.rest]; simp,
    ⟨run.head hne, ?_, hword _ (List.head_mem hne)⟩, ⟨g, ?_, hgw⟩, hxline.trans h.line, h.ends,
    fun r i k passed d hk hr hd => ?_⟩
  · rw [List.head?_append, List.head?_eq_some_head hne]
    rfl
  · rw [List.getLast?_append, List.getLast?_append, Option.mem_def.mp hg]
    rfl
  · obtain ⟨k, rfl⟩ : ∃ n, k = n + 1 := ⟨k - 1, by omega⟩
    have hsame : firstWord (x ++ (y ++ r)) = firstWord q := by
      rw [hqx, h.rest]
      exact firstWord_append (firstWord_append hr y) x
    obtain ⟨hstop', hrun'⟩ := hagain _ i hsame
    have hspace' : Cursor.startsWith isSpaceOrBreak ⟨x ++ (y ++ r), i + run.length, c.line,
        c.column + run.length⟩ = true := startsWith_space_again hspace hx hxs heword rfl
    have hword' : AtWord (y ++ r) := by
      simp [AtWord, List.head?_append, Option.mem_def.mp hb, hbw]
    have hpos := List.length_pos_iff.mpr hne
    have hmore' := h.again r (i + run.length + x.length) k passed d (by
      simp only [List.length_append] at hk ⊢
      omega) hr (by
        rw [List.length_append, List.length_append] at hd
        simpa only [Nat.add_assoc] using hd)
    have hgap' := hxagain (y ++ r) (i + run.length) hword'
    have hadvance : Cursor.advance ⟨run ++ (x ++ (y ++ r)), i, c.line, c.column⟩ run.length =
        ⟨x ++ (y ++ r), i + run.length, c.line, c.column + run.length⟩ := by simp [Cursor.advance]
    simp only [Cursor.advance] at hgap'
    rw [List.append_assoc, List.append_assoc, plainFrom_succ, hstop', if_neg (by simp), hrun',
      Option.bind_some, hadvance, if_pos hspace', hgap', Option.bind_some, if_neg (by simp [hcolumn]),
      hmore']
    rfl

/-- A plain scalar is read word by word up to the end of its last word. -/
theorem plainFrom_words (hstop : stopsPlain flow c = false)
    (h : plainFrom flow indent fuel gap c = some found) :
    ∃ y e, PlainWords flow indent gap c found y e := by
  induction fuel generalizing c gap found with
  | zero => cases h
  | succ fuel ih =>
    obtain ⟨run, hne, hrun, ⟨htext, hend⟩ | ⟨gap', e, more, hspace, hgap, hcolumn, hstop', hmore,
      rfl⟩⟩ := plainFrom_cases hstop h
    · exact ⟨_, _, plainWords_last hstop hne hrun htext hend⟩
    · obtain ⟨y, e', hwords⟩ := ih hstop' hmore
      obtain ⟨x, hx⟩ := hwords.behind_word hstop hne hrun hspace hgap hcolumn
      exact ⟨_, _, hx⟩

end Words

/-! ## The end in front of another text -/

/-- Nothing is read of a gap where there is none. -/
theorem Gap.read_atWord (indent : Nat) (h : AtWord c.rest) :
    Gap.read indent (c.rest.length + 1) c = some (.empty, c) := by
  have hread := Gap.read_blanks indent (x := []) (by simp) h.noBlank c.index c.line c.column
  rw [List.nil_append] at hread
  rw [hread]
  simp [Gap.lines_stop h.no_break]

/-- Where a scalar ends it ends again before the same word. -/
theorem plainEnd_again {passed : Bool} (h : plainEnd flow indent c = some (passed, d)) :
    AtWord d.rest ∧ c.line ≤ d.line ∧ ∃ x, c.rest = x ++ d.rest ∧
      (∀ a ∈ x, isSpaceOrBreak a) ∧
      ∀ r i, AtWord r → firstWord r = firstWord d.rest →
        plainEnd flow indent ⟨x ++ r, i, c.line, c.column⟩ =
          some (passed, ⟨r, i + x.length, d.line, d.column⟩) := by
  rw [plainEnd] at h
  split at h
  · rename_i hspace
    obtain ⟨⟨gap, d'⟩, hgap, h⟩ := Option.bind_eq_some_iff.mp h
    rw [Option.ite_none_right_eq_some] at h
    obtain ⟨hend, heq⟩ := h
    obtain ⟨rfl, rfl⟩ := Prod.mk.inj (Option.some.inj heq)
    obtain ⟨x, hx, hxs, hword, hline, hagain⟩ := Gap.read_word hgap
    refine ⟨hword, hline, x, hx, hxs, fun r i hr hsame => ?_⟩
    have hspace' : Cursor.startsWith isSpaceOrBreak ⟨x ++ r, i, c.line, c.column⟩ = true :=
      startsWith_space_again hspace hx hxs hword rfl
    rw [plainEnd, if_pos hspace']
    simp only [hagain r i hr, Option.bind_some]
    rw [if_pos]
    rw [Bool.or_eq_true] at hend ⊢
    exact hend.imp_right fun hstop => stopsPlain_congr hsame rfl hstop
  · rename_i hspace
    obtain ⟨rfl, rfl⟩ := Prod.mk.inj (Option.some.inj h)
    rw [Bool.not_eq_true, startsWith_space_iff] at hspace
    refine ⟨hspace, le_rfl, [], rfl, by simp, fun r i hr hsame => ?_⟩
    have hspace' : Cursor.startsWith isSpaceOrBreak ⟨r, i, c.line, c.column⟩ = false :=
      (startsWith_space_iff _).mpr hr
    rw [plainEnd, List.nil_append, hspace', if_neg (by simp)]
    rfl

/-- Where a scalar ends at a comment, the gap goes on with the lines that stand in its place; the
scalar ends there if no word of it follows them. -/
theorem plainEnd_cut {passed : Bool} (h : plainEnd flow indent c = some (passed, d))
    (hc : c.rest = y ++ (blanks ++ d.rest)) (hy : ∀ a ∈ y, isSpaceOrBreak a)
    (hblanks : ∀ a ∈ blanks, isSpaceOrTab a) (i : Nat) (hr : NoBlank r)
    (hsame : SameBreak y (blanks ++ d.rest) r) :
    blanks.length ≤ d.column ∧ ∃ left, r.length ≤ left ∧ ∀ gap e,
      Gap.read.lines indent left ⟨r, i + y.length, d.line, d.column - blanks.length⟩ =
        some (gap, e) →
      ((!flow && e.column < indent) || stopsPlain flow e) = true →
        plainEnd flow indent ⟨y ++ r, i, c.line, c.column⟩ =
          some (passed || !gap.breaks.isEmpty, e) := by
  have hword := (plainEnd_again h).1
  -- also where the scalar ends at once a gap is read, of nothing
  obtain ⟨gap₀, hgap₀, rfl⟩ : ∃ gap₀, Gap.read indent (c.rest.length + 1) c = some (gap₀, d) ∧
      passed = !gap₀.breaks.isEmpty := by
    rw [plainEnd] at h
    split at h
    · obtain ⟨⟨gap, d'⟩, hgap, h⟩ := Option.bind_eq_some_iff.mp h
      rw [Option.ite_none_right_eq_some] at h
      obtain ⟨rfl, rfl⟩ := Prod.mk.inj (Option.some.inj h.2)
      exact ⟨gap, hgap, rfl⟩
    · rename_i hspace
      obtain ⟨rfl, rfl⟩ := Prod.mk.inj (Option.some.inj h)
      rw [Bool.not_eq_true, startsWith_space_iff] at hspace
      exact ⟨.empty, Gap.read_atWord _ hspace, rfl⟩
  obtain ⟨-, -, hcolumn, hagain⟩ := Gap.read_again hc hy hblanks hword hgap₀
  obtain ⟨left, before, hleft, -, hread⟩ := hagain r i hr hsame
  refine ⟨hcolumn, left, hleft, fun gap e hlines hend => ?_⟩
  rw [hlines, Option.map_some] at hread
  rw [plainEnd]
  split
  · simp only [hread, Option.bind_some, Gap.behind]
    rw [if_pos hend]
    cases gap₀.breaks <;> simp
  · rename_i hspace
    rw [Bool.not_eq_true, startsWith_space_iff] at hspace
    have hnone := Gap.read_atWord indent hspace
    rw [hread] at hnone
    obtain ⟨hgap, rfl⟩ := Prod.mk.inj (Option.some.inj hnone)
    have hbreaks : gap₀.breaks ++ gap.breaks = [] := congrArg Gap.breaks hgap
    simp [(List.append_eq_nil_iff.mp hbreaks).1, (List.append_eq_nil_iff.mp hbreaks).2]

end ClusterConfig.Yaml
