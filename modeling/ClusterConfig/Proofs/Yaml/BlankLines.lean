import ClusterConfig.Proofs.Yaml.Gaps
import ClusterConfig.Proofs.Yaml.BlockReader

/-!
# Blank lines behind a scalar

A scalar that is not quoted reads the blank lines behind it. Where these start with nothing but
spaces it is the same whether it reads them or the scanner skips them as a gap.
-/

set_option autoImplicit false

namespace ClusterConfig.Yaml.Scan

variable {s t u : Scan} {P : List Char → Prop} {indent fuel m : Nat}

theorem Skips.stop_noBlank (h : Skips P s t) (hno : NoBlank t.cursor.rest) : NoBlank s.stop.rest := by
  obtain ⟨comment, rest, hstop, hcomment, -, -, hskip⟩ := skipComment_split s.stop
  rw [hstop]
  obtain rfl | ⟨text, rfl, -⟩ := hcomment
  · cases h with
    | stop => rwa [hskip] at hno
    | line hnext =>
      obtain ⟨b, d, hb, -⟩ := nextLine_eq_some hnext
      obtain ⟨x, hx, hne, hbreaks, -⟩ := lineBreak?_eq_some hb
      obtain ⟨e, x, rfl⟩ := List.exists_cons_of_ne_nil hne
      rw [hskip] at hx
      apply noBlank_of_break
      simpa [show rest = e :: x ++ d.rest from hx] using hbreaks e (by simp)
  · rfl

/-- Skipping goes on from where the blanks of a line end. -/
theorem Skips.from_stop (h : Skips P s t) (hno : NoBlank t.cursor.rest)
    (hc : s.stop.column = 0 → s.blanks = [] ∧ s.cursor.column = 0) : Skips P (s.goTo s.stop) t := by
  have hblanks : (s.goTo s.stop).blanks = [] := by
    refine leadingBlanks_again (x := []) (y := []) (z := []) rfl (h.stop_noBlank hno) ?_
    intro _ hzero
    obtain ⟨hnil, hcolumn⟩ := hc (of_decide_eq_true hzero)
    exact no_mark_of_blanks hnil hcolumn
  have hstop : (s.goTo s.stop).stop = s.stop := by
    rw [Scan.stop, hblanks]
    rfl
  have hnext : (s.goTo s.stop).nextLine? = s.nextLine? := by
    rw [nextLine?, hstop]
    rfl
  cases h with
  | stop hnone =>
    have hskips := Skips.stop (P := P) (hnext.trans hnone)
    rwa [hstop] at hskips
  | line hline hu ht => exact .line (hnext.trans hline) hu ht

theorem Skips.from_line_stop (h : Skips P s t) (hno : NoBlank t.cursor.rest)
    (hc : s.cursor.column = 0) : Skips P ((s.goTo s.stop).allowKey s.keyAllowed) t := by
  refine h.from_stop hno fun hzero => ⟨?_, hc⟩
  have hlen : s.cursor.column + s.blanks.length = 0 := hzero
  exact List.length_eq_zero_iff.mp (by omega)

/-- A line that is nothing but blanks ends in a line break, any other at a word, a comment or the end
of the text. -/
theorem Skips.at_stop (h : Skips P s t) :
    (∃ b u, s.stop.lineBreak? = some (b, u.cursor) ∧ s.nextLine? = some u ∧ P u.blanks ∧ Skips P u t ∧
        u = (s.goTo u.cursor).allowKey (s.keyAllowed || !s.inFlow) ∧ u.cursor.column = 0) ∨
      s.stop.lineBreak? = none ∧ (s.stop.rest.head? = some '#' ∨ s.stop = t.cursor) := by
  by_cases hhead : s.stop.rest.head? = some '#'
  · obtain ⟨q, hq⟩ := List.head?_eq_some_iff.mp hhead
    refine .inr ⟨lineBreak?_eq_none ?_, .inl hhead⟩
    rw [hq]
    intro e he
    obtain rfl : '#' = e := by simpa using he
    rfl
  · have hskip := skipComment_of_ne hhead
    cases h with
    | stop hnone =>
      rw [nextLine?, Option.map_eq_none_iff, hskip] at hnone
      exact .inr ⟨hnone, .inr (by rw [hskip]; rfl)⟩
    | @line _ u _ hline hu ht =>
      obtain ⟨b, d, hb, rfl⟩ := nextLine_eq_some hline
      rw [hskip] at hb
      obtain ⟨x, -, -, -, hd, -⟩ := lineBreak?_eq_some hb
      refine .inl ⟨b, _, hb, hline, hu, ht, rfl, ?_⟩
      change d.column = 0
      rw [hd]

/-- A line break behind which a line starts with nothing but spaces: the gap of a plain scalar goes on
behind these. -/
theorem lines_behind_break {b : Char} {c : Cursor} (indent fuel : Nat)
    (hb : c.lineBreak? = some (b, u.cursor)) (hspaces : ∀ e ∈ u.blanks, e = ' ')
    (hno : NoBlank u.stop.rest) :
    Gap.read.lines indent (fuel + 1) c =
      (Gap.read.lines indent fuel u.stop).map (Gap.behind [] [b]) := by
  have hnotab : ¬(u.blanks.take (indent - u.cursor.column)).contains '\t' = true := by
    intro htab
    cases hspaces '\t' (List.mem_of_mem_take (by simpa using htab))
  rw [Gap.lines_break indent hb (x := u.blanks) (fun e he => by rw [hspaces e he]; rfl) hno
    (stop_rest u) fuel, if_neg hnotab]
  rfl

/-- The blank lines at the start of a gap as a plain scalar reads them, up to a word, a comment or
the end of the text. -/
theorem Skips.lines (indent fuel : Nat) (hP : ∀ x, P x → ∀ e ∈ x, e = ' ') (h : Skips P s t)
    (hno : NoBlank t.cursor.rest) (hs : P s.blanks) (hc : s.cursor.column = 0)
    (hf : s.stop.rest.length ≤ fuel) :
    ∃ gap d, Gap.read.lines indent fuel s.stop = some (gap, d) ∧
      (d.rest.head? = some '#' ∨ d = t.cursor) ∧
      Skips P ((s.goTo d).allowKey (s.keyAllowed || !s.inFlow && !gap.breaks.isEmpty)) t := by
  induction fuel generalizing s with
  | zero =>
    obtain ⟨b, u, hb, -⟩ | ⟨-, hend⟩ := h.at_stop
    · obtain ⟨x, hx, hne, -⟩ := lineBreak?_eq_some hb
      have hpos := List.length_pos_iff.mpr hne
      rw [hx, List.length_append] at hf
      omega
    · exact ⟨.empty, s.stop, rfl, hend, by simpa [Gap.empty] using h.from_line_stop hno hc⟩
  | succ fuel ih =>
    obtain ⟨b, u, hb, -, hu, ht, hus, hcolumn⟩ | ⟨hnone, hend⟩ := h.at_stop
    · have hlines := lines_behind_break indent fuel hb (hP _ hu) (ht.stop_noBlank hno)
      have hlen : u.stop.rest.length ≤ fuel := by
        obtain ⟨x, hx, hne, -⟩ := lineBreak?_eq_some hb
        have hpos := List.length_pos_iff.mpr hne
        have hle := length_stop u
        rw [hx, List.length_append] at hf
        omega
      obtain ⟨gap, d, hread, hend, hskips⟩ := ih ht hu hcolumn hlen
      rw [hread] at hlines
      refine ⟨⟨gap.blanks, b :: gap.breaks⟩, d, hlines, hend, ?_⟩
      have hallowed : ((s.keyAllowed || !s.inFlow) || !s.inFlow && !gap.breaks.isEmpty) =
          (s.keyAllowed || !s.inFlow && !(b :: gap.breaks).isEmpty) := by
        cases s.keyAllowed <;> cases s.inFlow <;> simp
      rw [hus] at hskips
      exact hallowed ▸ hskips
    · refine ⟨.empty, s.stop, Gap.lines_stop ?_ _, hend, ?_⟩
      · rwa [lineBreak?_eq_none_iff] at hnone
      · simpa [Gap.empty] using h.from_line_stop hno hc

/-- The blank lines at the start of a gap as a block scalar reads them: the line behind them is not
indented as its text. -/
theorem Skips.blockGap (known : Option Nat) (fuel : Nat)
    (hP : ∀ x, P x → (∀ e ∈ x, e = ' ') ∧ x.length < m) (hm : ∀ n ∈ known, m ≤ n)
    (h : Skips P s t) (hno : NoBlank t.cursor.rest) (hs : P s.blanks)
    (hc : s.cursor.column = 0) (hkey : s.keyAllowed = true) (hf : s.cursor.rest.length < fuel) :
    ∃ g, Yaml.blockGap known fuel s.cursor = some g ∧ g.after.column < m ∧
      (g.after.rest.head? = some '#' ∨ g.after = t.cursor) ∧ Skips P (s.goTo g.after) t := by
  induction fuel generalizing s with
  | zero => omega
  | succ fuel ih =>
    obtain ⟨hspaces, hlt⟩ := hP _ hs
    have hno' := h.stop_noBlank hno
    have hread : Yaml.blockGap known (fuel + 1) ⟨s.blanks ++ s.stop.rest, s.cursor.index,
        s.cursor.line, s.cursor.column⟩ = _ :=
      blockGap_spaces hspaces (fun n hn => .inr (by have := hm n hn; omega)) (by
        intro hhead
        rw [NoBlank, hhead] at hno'
        cases hno')
    rw [← stop_rest s, show (⟨s.stop.rest, s.cursor.index + s.blanks.length, s.cursor.line,
      s.cursor.column + s.blanks.length⟩ : Cursor) = s.stop from rfl, blockGapFrom, if_neg (by
        intro htab
        rw [Bool.and_eq_true, decide_eq_true_eq] at htab
        rw [NoBlank, htab.1] at hno'
        cases hno')] at hread
    have hstop : s.stop.column < m := by
      change s.cursor.column + s.blanks.length < m
      omega
    obtain ⟨b, u, hb, -, hu, ht, hus, hcolumn⟩ | ⟨hnone, hend⟩ := h.at_stop
    · rw [hb] at hread
      have hlen : u.cursor.rest.length < fuel := by
        obtain ⟨x, hx, hne, -⟩ := lineBreak?_eq_some hb
        have hpos := List.length_pos_iff.mpr hne
        have hle := length_stop s
        rw [hx, List.length_append] at hle
        omega
      rw [hkey, Bool.true_or] at hus
      obtain ⟨g, hg, hcol, hend, hskips⟩ := ih ht hu hcolumn (by rw [hus]; rfl) hlen
      simp only [hg, Option.map_some] at hread
      refine ⟨_, hread, hcol, hend, ?_⟩
      have hplace : u.goTo g.after = s.goTo g.after := by
        rw [hus]
        simp [allowKey, goTo, hkey]
      exact hplace ▸ hskips
    · rw [hnone] at hread
      refine ⟨_, hread, hstop, hend, ?_⟩
      exact h.from_line_stop hno hc

/-- Inside brackets a gap is skipped the same whether a key may start or not. -/
theorem Skips.allowKey (h : Skips P s t) (hflow : s.inFlow = true) (allowed : Bool) :
    Skips P (s.allowKey allowed) (t.allowKey allowed) := by
  have hstop {s : Scan} (hflow : s.inFlow = true) : (s.allowKey allowed).blanks = s.blanks := by
    have htabs : (s.allowKey allowed).skipsTabs = s.skipsTabs := by
      simp only [skipsTabs, hflow, Bool.true_or, show (s.allowKey allowed).inFlow = true from hflow]
    rw [blanks, blanks, htabs]
    rfl
  have hnext {s : Scan} (hflow : s.inFlow = true) :
      (s.allowKey allowed).nextLine? = s.nextLine?.map (·.allowKey allowed) := by
    have hcursor : (s.allowKey allowed).stop = s.stop := by
      rw [Scan.stop, hstop hflow]
      rfl
    rw [nextLine?, nextLine?, hcursor, Option.map_map]
    congr 1
    funext found
    simp [Scan.allowKey, goTo, show inFlow { s with keyAllowed := allowed } = true from hflow]
  induction h with
  | @stop s hnone =>
    have hskips := Skips.stop (P := P) (s := s.allowKey allowed) (by rw [hnext hflow, hnone]; rfl)
    have hcursor : (s.allowKey allowed).stop = s.stop := by
      rw [Scan.stop, hstop hflow]
      rfl
    rwa [hcursor] at hskips
  | @line s u t hline hu _ ih =>
    have huflow : u.inFlow = true := by
      obtain ⟨b, d, -, rfl⟩ := nextLine_eq_some hline
      exact hflow
    refine .line (by rw [hnext hflow, hline]; rfl) ?_ (ih huflow)
    rwa [hstop huflow]

end ClusterConfig.Yaml.Scan
