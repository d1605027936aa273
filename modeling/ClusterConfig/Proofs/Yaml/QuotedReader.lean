import ClusterConfig.Proofs.Yaml.GapReader
import ClusterConfig.Proofs.Yaml.QuotedText

/-!
# Quoted scalars in front of another text

A quoted scalar is over with its closing quote, so it is read again whatever follows, as long as no
second quote does.
-/

set_option autoImplicit false

namespace ClusterConfig.Yaml

variable {c d : Cursor} {q r s x : List Char} {quote : Char} {run : QuotedRun}

/-! ## Runs -/

/-- The text is over, or a blank, a line break or the quote that closes the scalar follows. -/
def ClosesRun (quote : Char) (s : List Char) : Prop :=
  s.head?.all isSpaceOrBreak ∨ ∃ rest, s = quote :: rest ∧ (quote = '\'' → rest.head? ≠ some '\'')

/-- What a run of a quoted scalar stops at: behind a backslash it is a line break. -/
def EndsRun (quote : Char) (escapedBreak : Bool) (s : List Char) : Prop :=
  if escapedBreak then s.head?.any isLineBreak = true else ClosesRun quote s

theorem singleRun_stop (hs : ClosesRun '\'' s) : singleRun s = ⟨[], 0, false⟩ := by
  obtain hs | ⟨rest, rfl, hrest⟩ := hs
  · cases s with
    | nil => rfl
    | cons e s =>
      have he : isSpaceOrBreak e = true := by simpa using hs
      rw [singleRun.eq_def]
      split
      · rename_i heq
        obtain ⟨rfl, -⟩ := List.cons.inj heq
        cases he
      · rename_i f rest _ heq
        obtain ⟨rfl, rfl⟩ := List.cons.inj heq
        rw [he, Bool.or_true, if_pos rfl]
      · rfl
  · rw [singleRun.eq_def]
    split
    · rename_i more heq
      obtain ⟨-, rfl⟩ := List.cons.inj heq
      exact absurd rfl (hrest rfl)
    · rename_i f rest' _ heq
      obtain ⟨rfl, rfl⟩ := List.cons.inj heq
      simp
    · rfl

theorem singleRun_again (s : List Char) :
    (singleRun s).escapedBreak = false ∧ ∃ x q, s = x ++ q ∧ (singleRun s).length = x.length ∧
      ClosesRun '\'' q ∧ ∀ r, ClosesRun '\'' r → singleRun (x ++ r) = singleRun s := by
  induction s using singleRun.induct with
  | case1 rest ih =>
    obtain ⟨hesc, x, q, rfl, hlen, hq, hagain⟩ := ih
    rw [singleRun]
    refine ⟨hesc, '\'' :: '\'' :: x, q, rfl, by simp [QuotedRun.cons, hlen], hq, fun r hr => ?_⟩
    rw [List.cons_append, List.cons_append, singleRun, hagain r hr]
  | case2 e rest hpair hstop =>
    have hstops : ClosesRun '\'' (e :: rest) := by
      rw [Bool.or_eq_true, decide_eq_true_eq] at hstop
      obtain rfl | hstop := hstop
      · refine .inr ⟨rest, rfl, fun _ hhead => ?_⟩
        obtain ⟨more, rfl⟩ := List.head?_eq_some_iff.mp hhead
        exact hpair more rfl rfl
      · exact .inl (by simpa using hstop)
    rw [singleRun_stop hstops]
    exact ⟨rfl, [], e :: rest, rfl, rfl, hstops, fun r hr => singleRun_stop hr⟩
  | case3 e rest hpair hgo ih =>
    obtain ⟨hesc, x, q, rfl, hlen, hq, hagain⟩ := ih
    have hcons (t : List Char) : singleRun (e :: t) = (singleRun t).cons e 1 := by
      rw [singleRun.eq_def]
      split
      · rename_i heq
        obtain ⟨rfl, -⟩ := List.cons.inj heq
        simp at hgo
      · rename_i heq
        obtain ⟨rfl, rfl⟩ := List.cons.inj heq
        rw [if_neg hgo]
      · rename_i heq
        cases heq
    rw [hcons]
    refine ⟨hesc, e :: x, q, rfl, by simp [QuotedRun.cons, hlen], hq, fun r hr => ?_⟩
    rw [List.cons_append, hcons, hagain r hr]
  | case4 =>
    have hstops : ClosesRun '\'' [] := .inl rfl
    exact ⟨rfl, [], [], rfl, rfl, hstops, fun r hr => singleRun_stop hr⟩

/-! ## Double quotes -/

theorem length_mapM_option {α β : Type} {f : α → Option β} {xs : List α} {ys : List β}
    (h : xs.mapM f = some ys) : ys.length = xs.length := by
  induction xs generalizing ys with
  | nil =>
    cases h
    rfl
  | cons x xs ih =>
    simp only [List.mapM_cons, Option.bind_eq_bind, Option.bind_eq_some_iff, Option.pure_def,
      Option.some.injEq] at h
    obtain ⟨y, -, zs, hzs, rfl⟩ := h
    simp [ih hzs]

theorem numbered?_eq_some {width : Nat} {e : Char} (h : numbered? width s = some e) :
    ∃ x q, s = x ++ q ∧ x.length = width ∧ ∀ r, numbered? width (x ++ r) = some e := by
  have hlen : (s.take width).length = width := by
    simp only [numbered?, Option.bind_eq_bind, Option.bind_eq_some_iff,
      Option.ite_none_right_eq_some, Bool.and_eq_true, decide_eq_true_eq] at h
    obtain ⟨values, hvalues, ⟨hlen, -⟩, -⟩ := h
    exact (length_mapM_option hvalues).symm.trans hlen
  refine ⟨s.take width, s.drop width, (List.take_append_drop _ _).symm, hlen, fun r => ?_⟩
  rw [← h, numbered?, numbered?, List.take_append_of_le_length (by rw [hlen]),
    List.take_of_length_le (by rw [hlen])]

/-- The equation of a run at any character but a backslash. -/
theorem doubleRun_char {e : Char} (he : e ≠ '\\') (fuel : Nat) (rest : List Char) :
    doubleRun (fuel + 1) (e :: rest) =
      if e = '"' || isSpaceOrBreak e then some ⟨[], 0, false⟩
      else (doubleRun fuel rest).map fun run => run.cons e 1 := by
  rw [doubleRun]
  exact fun heq => he heq

theorem doubleRun_stop (hs : ClosesRun '"' s) (fuel : Nat) :
    doubleRun (fuel + 1) s = some ⟨[], 0, false⟩ := by
  obtain hs | ⟨rest, rfl, -⟩ := hs
  · cases s with
    | nil => rfl
    | cons e s =>
      have he : isSpaceOrBreak e = true := by simpa using hs
      rw [doubleRun_char, he, Bool.or_true, if_pos rfl]
      rintro rfl
      cases he
  · rw [doubleRun_char (by decide)]
    rfl

/-- The equation of a run at a backslash. -/
theorem doubleRun_escape (fuel : Nat) (e : Char) (rest : List Char) :
    doubleRun (fuel + 1) ('\\' :: e :: rest) =
      if isLineBreak e then some ⟨[], 1, true⟩
      else
        match numberWidth? e with
        | some width => (numbered? width rest).bind fun x =>
          (doubleRun fuel (rest.drop width)).map fun run => run.cons x (width + 2)
        | none => (escaped? e).bind fun x =>
          (doubleRun fuel rest).map fun run => run.cons x 2 := by
  rw [doubleRun]
  simp only [Option.bind_eq_bind, Option.map_eq_bind]
  split
  · rfl
  · cases numberWidth? e <;> rfl

/-- An escape that is no line break stands for one character, and the run goes on behind it. -/
theorem doubleRun_escaped {fuel : Nat} {e : Char} (hbreak : isLineBreak e = false)
    (h : doubleRun (fuel + 1) ('\\' :: e :: s) = some run) :
    ∃ x y rest more, '\\' :: e :: s = y ++ rest ∧ 0 < y.length ∧ doubleRun fuel rest = some more ∧
      run = more.cons x y.length ∧ ∀ r k, doubleRun (k + 1) (y ++ r) =
        (doubleRun k r).map fun more => more.cons x y.length := by
  rw [doubleRun_escape, if_neg (by simp [hbreak])] at h
  cases hwidth : numberWidth? e with
  | some width =>
    rw [hwidth] at h
    obtain ⟨x, hx, hrun⟩ := Option.bind_eq_some_iff.mp h
    obtain ⟨more, hmore, rfl⟩ := Option.map_eq_some_iff.mp hrun
    obtain ⟨y, rest, rfl, rfl, hagain⟩ := numbered?_eq_some hx
    rw [List.drop_left] at hmore
    refine ⟨x, '\\' :: e :: y, rest, more, rfl, by simp, hmore, rfl, fun r k => ?_⟩
    rw [List.cons_append, List.cons_append, doubleRun_escape, if_neg (by simp [hbreak]), hwidth]
    simp only [hagain r, Option.bind_some, List.drop_left]
    rfl
  | none =>
    rw [hwidth] at h
    obtain ⟨x, hx, hrun⟩ := Option.bind_eq_some_iff.mp h
    obtain ⟨more, hmore, rfl⟩ := Option.map_eq_some_iff.mp hrun
    refine ⟨x, ['\\', e], s, more, rfl, by simp, hmore, rfl, fun r k => ?_⟩
    rw [List.cons_append, List.cons_append, doubleRun_escape, if_neg (by simp [hbreak]), hwidth]
    simp only [hx, Option.bind_some]
    rfl

/-- A run of a double-quoted scalar is over, or it goes on behind some characters that stand for
one. -/
theorem doubleRun_succ {fuel : Nat} (h : doubleRun (fuel + 1) s = some run) :
    (run = ⟨[], 0, false⟩ ∧ ClosesRun '"' s) ∨
      (∃ q, s = '\\' :: q ∧ q.head?.any isLineBreak = true ∧ run = ⟨[], 1, true⟩) ∨
      ∃ e y rest more, s = y ++ rest ∧ 0 < y.length ∧ doubleRun fuel rest = some more ∧
        run = more.cons e y.length ∧ ∀ r k, doubleRun (k + 1) (y ++ r) =
          (doubleRun k r).map fun more => more.cons e y.length := by
  cases s with
  | nil =>
    cases h
    exact .inl ⟨rfl, .inl rfl⟩
  | cons e s =>
    by_cases he : e = '\\'
    · subst he
      cases s with
      | nil => cases h
      | cons e s =>
        cases hbreak : isLineBreak e with
        | true =>
          rw [doubleRun_escape, hbreak, if_pos rfl] at h
          cases h
          exact .inr (.inl ⟨e :: s, rfl, by simpa using hbreak, rfl⟩)
        | false => exact .inr (.inr (doubleRun_escaped hbreak h))
    · rw [doubleRun_char he] at h
      split at h
      · rename_i hstop
        cases h
        refine .inl ⟨rfl, ?_⟩
        rw [Bool.or_eq_true, decide_eq_true_eq] at hstop
        obtain rfl | hstop := hstop
        · exact .inr ⟨s, rfl, fun hquote => by cases hquote⟩
        · exact .inl (by simpa using hstop)
      · rename_i hgo
        obtain ⟨more, hmore, rfl⟩ := Option.map_eq_some_iff.mp h
        refine .inr (.inr ⟨e, [e], s, more, rfl, by simp, hmore, rfl, fun r k => ?_⟩)
        rw [List.singleton_append, doubleRun_char he, if_neg hgo]
        rfl

theorem doubleRun_again {fuel : Nat} (h : doubleRun fuel s = some run) :
    ∃ x q, s = x ++ q ∧ run.length = x.length ∧ EndsRun '"' run.escapedBreak q ∧
      ∀ r k, x.length < k → EndsRun '"' run.escapedBreak r → doubleRun k (x ++ r) = some run := by
  induction fuel generalizing s run with
  | zero => cases h
  | succ fuel ih =>
    obtain ⟨rfl, hstop⟩ | ⟨q, rfl, hbreak, rfl⟩ | ⟨e, y, rest, more, rfl, hpos, hmore, rfl, hagain⟩ :=
      doubleRun_succ h
    · refine ⟨[], s, rfl, rfl, hstop, fun r k hk hr => ?_⟩
      obtain ⟨k, rfl⟩ : ∃ n, k = n + 1 := ⟨k - 1, by simp at hk; omega⟩
      exact doubleRun_stop hr k
    · refine ⟨['\\'], q, rfl, rfl, hbreak, fun r k hk hr => ?_⟩
      obtain ⟨k, rfl⟩ : ∃ n, k = n + 1 := ⟨k - 1, by simp at hk; omega⟩
      cases r with
      | nil => cases hr
      | cons e r =>
        have he : isLineBreak e = true := by simpa [EndsRun] using hr
        rw [List.singleton_append, doubleRun_escape, if_pos he]
    · obtain ⟨x, q, rfl, hlen, hstop, hmoreagain⟩ := ih hmore
      refine ⟨y ++ x, q, by simp, by simp [QuotedRun.cons, hlen, Nat.add_comm], hstop,
        fun r k hk hr => ?_⟩
      rw [List.length_append] at hk
      obtain ⟨k, rfl⟩ : ∃ n, k = n + 1 := ⟨k - 1, by omega⟩
      rw [List.append_assoc, hagain, hmoreagain r k (by omega) hr]
      rfl

theorem quotedRun_again (hquote : quote = '\'' ∨ quote = '"') (h : quotedRun quote s = some run) :
    ∃ x q, s = x ++ q ∧ run.length = x.length ∧ EndsRun quote run.escapedBreak q ∧
      ∀ r, EndsRun quote run.escapedBreak r → quotedRun quote (x ++ r) = some run := by
  obtain rfl | rfl := hquote
  · simp only [quotedRun, Char.reduceEq, if_false, Option.some.injEq] at h ⊢
    subst h
    obtain ⟨hesc, x, q, rfl, hlen, hstop, hagain⟩ := singleRun_again s
    rw [hesc]
    exact ⟨x, q, rfl, hlen, hstop, hagain⟩
  · simp only [quotedRun, if_true] at h ⊢
    obtain ⟨x, q, rfl, hlen, hstop, hagain⟩ := doubleRun_again h
    refine ⟨x, q, rfl, hlen, hstop, fun r hr => hagain r _ ?_ hr⟩
    rw [List.length_append]
    omega

/-! ## Scalars -/

/-- A run of a quoted scalar and the line break that it escapes. -/
def readRun (quote : Char) (c : Cursor) : Option (QuotedRun × Cursor) :=
  (quotedRun quote c.rest).map fun run =>
    (run, if run.escapedBreak then (c.advance run.length).skipBreak else c.advance run.length)

theorem quotedFrom_succ (fuel : Nat) (c : Cursor) :
    quotedFrom quote (fuel + 1) c =
      if (boundary? c).isSome || c.atEnd then none
      else (readRun quote c).bind fun found =>
        if found.2.rest.head? = some quote then some (found.1.text, found.2.advance 1)
        else (Gap.read 0 (found.2.rest.length + 1) found.2).bind fun gap =>
          (quotedFrom quote fuel gap.2).map fun more =>
            (found.1.text ++ ((if found.1.escapedBreak then gap.1.breaks else gap.1.folded) ++
              more.1), more.2) := by
  rw [quotedFrom]
  split
  · rfl
  · rw [readRun, quotedRun, Option.bind_map]
    split
    · simp only [Option.bind_eq_bind, Option.pure_def, Option.map_eq_bind]
      congr 1
    · simp only [Option.bind_eq_bind, Option.pure_def, Option.map_eq_bind, Option.bind_some]
      rfl

/-- What ends a run ends it also before another text that goes on with the same word. -/
theorem ClosesRun.congr {e : Char} {s s' : List Char} (h : ClosesRun quote (e :: s))
    (hs : firstWord s' = firstWord s) : ClosesRun quote (e :: s') := by
  obtain hspace | ⟨rest, hrest, hnext⟩ := h
  · exact .inl hspace
  · obtain ⟨rfl, rfl⟩ := List.cons.inj hrest
    refine .inr ⟨s', rfl, fun he hhead => hnext he ?_⟩
    have hword : OfWords (fun f => f = '\'') := ofWords_of (by simp)
    have hany := head?_any_congr hword hs
    rw [hhead] at hany
    cases hh : s.head? with
    | none => simp [hh] at hany
    | some f => simpa [hh] using hany

theorem readRun_again (hquote : quote = '\'' ∨ quote = '"') (h : readRun quote c = some (run, d)) :
    ∃ x, c.rest = x ++ d.rest ∧ c.line ≤ d.line ∧
      (x = [] → d.rest.head?.all isSpaceOrBreak ∨ d.rest.head? = some quote) ∧
      ∀ e s s' i, d.rest = e :: s → firstWord s' = firstWord s →
        readRun quote ⟨x ++ e :: s', i, c.line, c.column⟩ =
          some (run, ⟨e :: s', i + x.length, d.line, d.column⟩) := by
  obtain ⟨text, index, line, column⟩ := c
  obtain ⟨run', hrun, heq⟩ := Option.map_eq_some_iff.mp h
  obtain ⟨rfl, rfl⟩ := Prod.mk.inj heq
  obtain ⟨x, q, rfl, hlen, hstop, hagain⟩ := quotedRun_again hquote hrun
  cases hesc : run'.escapedBreak with
  | false =>
    rw [hesc] at hstop hagain
    simp only [Cursor.advance, hlen, List.drop_left, Bool.false_eq_true, if_false]
    refine ⟨x, rfl, le_rfl, fun _ => ?_, fun e s s' i hq hs => ?_⟩
    · obtain hspace | ⟨rest, rfl, -⟩ := hstop
      · exact .inl hspace
      · exact .inr rfl
    have hstop' : ClosesRun quote (e :: s') := ClosesRun.congr (hq ▸ hstop) hs
    rw [readRun, hagain _ hstop']
    simp [hesc, Cursor.advance, hlen]
  | true =>
    rw [hesc] at hstop hagain
    have hbreak : q.head?.any isLineBreak = true := hstop
    have hqne : q ≠ [] := by
      rintro rfl
      cases hbreak
    have hall : q.head?.all isLineBreak = true := by
      cases hq : q.head? with
      | none => rfl
      | some e => simpa [hq] using hbreak
    obtain ⟨y, hy, hyb, hline, hyne, hyagain⟩ :=
      skipBreak_again (c := ⟨q, index + x.length, line, column + x.length⟩) hall
    simp only [Cursor.advance, hlen, List.drop_left, if_true]
    generalize Cursor.skipBreak ⟨q, index + x.length, line, column + x.length⟩ = d at *
    simp only at hy hline hyne hyagain
    refine ⟨x ++ y, by rw [hy, List.append_assoc], hline,
      fun hnil => absurd (List.append_eq_nil_iff.mp hnil).2 (hyne hqne), fun e s s' i hd hs => ?_⟩
    have hstop' : EndsRun quote true (y ++ e :: s') := by
      obtain ⟨f, y', rfl⟩ := List.exists_cons_of_ne_nil (hyne hqne)
      simpa [EndsRun] using hyb f (by simp)
    have hskip := hyagain (e :: s') (i + x.length) (fun _ hhead => by simpa [hd] using hhead)
      (fun hnil => absurd hnil hqne)
    rw [readRun, List.append_assoc, hagain _ hstop']
    simp [hesc, Cursor.advance, hlen, hskip, Nat.add_assoc]

/-- A round of a quoted scalar reads a run, behind which the scalar is closed or goes on over a gap. -/
theorem quotedFrom_cases {fuel : Nat} {text : List Char}
    (h : quotedFrom quote (fuel + 1) c = some (text, d)) :
    ((boundary? c).isSome || c.atEnd) = false ∧ ∃ run e, readRun quote c = some (run, e) ∧
      ((e.rest.head? = some quote ∧ text = run.text ∧ d = e.advance 1) ∨
        e.rest.head? ≠ some quote ∧ ∃ gap e' more,
          Gap.read 0 (e.rest.length + 1) e = some (gap, e') ∧
          quotedFrom quote fuel e' = some (more, d) ∧
          text = run.text ++ ((if run.escapedBreak then gap.breaks else gap.folded) ++ more)) := by
  rw [quotedFrom_succ, Option.ite_none_left_eq_some] at h
  obtain ⟨hgo, h⟩ := h
  obtain ⟨⟨run, e⟩, hrun, h⟩ := Option.bind_eq_some_iff.mp h
  refine ⟨by simpa using hgo, run, e, hrun, ?_⟩
  by_cases hclose : e.rest.head? = some quote
  · simp only [hclose, if_true, Option.some.injEq, Prod.mk.injEq] at h
    exact .inl ⟨hclose, h.1.symm, h.2.symm⟩
  · simp only [hclose, if_false] at h
    obtain ⟨⟨gap, e'⟩, hgap, h⟩ := Option.bind_eq_some_iff.mp h
    obtain ⟨⟨more, d'⟩, hmore, heq⟩ := Option.map_eq_some_iff.mp h
    obtain ⟨rfl, rfl⟩ := Prod.mk.inj heq
    exact .inr ⟨hclose, gap, e', more, hgap, hmore, rfl⟩

/-- A text that goes on is no boundary and not over, before any text that starts with the same
word. -/
theorem goesOn_again {z s r : List Char} (h : ((boundary? c).isSome || c.atEnd) = false)
    (hz : z ≠ []) (hc : c.rest = z ++ s) (hr : firstWord r = firstWord s) (i : Nat) :
    ((boundary? ⟨z ++ r, i, c.line, c.column⟩).isSome ||
      Cursor.atEnd ⟨z ++ r, i, c.line, c.column⟩) = false := by
  have hb : boundary? ⟨z ++ r, i, c.line, c.column⟩ = boundary? c :=
    boundary?_congr (by rw [hc]; exact firstWord_append hr z) rfl
  rw [Bool.or_eq_false_iff] at h
  rw [hb, h.1]
  simp [Cursor.atEnd, hz]

/-- A quoted scalar from behind its opening quote is read again before any text that does not start
with a quote when it was not followed by one. -/
theorem quotedFrom_again {fuel : Nat} {text : List Char} (hquote : quote = '\'' ∨ quote = '"')
    (h : quotedFrom quote fuel c = some (text, d)) :
    ∃ x, c.rest = x ++ d.rest ∧ x.getLast? = some quote ∧ c.line ≤ d.line ∧
      ∀ r i k, x.length < k → firstWord r = firstWord d.rest →
        quotedFrom quote k ⟨x ++ r, i, c.line, c.column⟩ =
          some (text, ⟨r, i + x.length, d.line, d.column⟩) := by
  induction fuel generalizing c text with
  | zero => cases h
  | succ fuel ih =>
    obtain ⟨hgo, run, e, hrun, ⟨hclose, rfl, rfl⟩ |
      ⟨hclose, gap, e', more, hgap, hmore, rfl⟩⟩ := quotedFrom_cases h
    all_goals obtain ⟨x, hx, hline, hstop, hagain⟩ := readRun_again hquote hrun
    · obtain ⟨q, hq⟩ := List.head?_eq_some_iff.mp hclose
      have hrest : c.rest = (x ++ [quote]) ++ (e.advance 1).rest := by
        rw [hx, hq]
        simp [Cursor.advance, hq]
      refine ⟨x ++ [quote], hrest, by simp, hline, fun r i k hk hr => ?_⟩
      obtain ⟨k, rfl⟩ : ∃ n, k = n + 1 := ⟨k - 1, by omega⟩
      have hr' : firstWord r = firstWord q := by simpa [Cursor.advance, hq] using hr
      have hread := hagain quote q r i hq hr'
      rw [quotedFrom_succ, goesOn_again hgo (by simp) hrest hr, if_neg (by simp)]
      simp only [List.append_assoc, List.singleton_append, hread, Option.bind_some,
        List.head?_cons, if_true]
      simp [Cursor.advance, Nat.add_assoc]
    · obtain ⟨y, hy, -, hword, hyline, hyagain⟩ := Gap.read_word hgap
      obtain ⟨z, hz, hlast, hzline, hzagain⟩ := ih hmore
      obtain ⟨g, z, rfl⟩ := List.exists_cons_of_ne_nil (l := z) (by rintro rfl; cases hlast)
      have hg : isSpaceOrBreak g = false := by simpa [AtWord, hz] using hword
      have hrest : c.rest = (x ++ (y ++ g :: z)) ++ d.rest := by
        rw [hx, hy, hz]
        simp
      refine ⟨x ++ (y ++ g :: z), hrest, by simp [List.getLast?_append, hlast],
        hline.trans (hyline.trans hzline), fun r i k hk hr => ?_⟩
      obtain ⟨k, rfl⟩ : ∃ n, k = n + 1 := ⟨k - 1, by omega⟩
      -- behind the run the same character follows in both texts
      obtain ⟨f, w, hw⟩ := List.exists_cons_of_ne_nil (show y ++ g :: z ≠ [] by simp)
      have hhead : e.rest = f :: (w ++ d.rest) := by
        rw [hy, hz, ← List.append_assoc, hw]
        rfl
      have hwr : f :: (w ++ r) = y ++ (g :: z ++ r) := by
        rw [← List.append_assoc, hw]
        rfl
      have hread := hagain f _ (w ++ r) i hhead (firstWord_append hr w)
      have hgap' := hyagain (g :: z ++ r) (i + x.length) (by simpa [AtWord] using hg)
      -- a round reads something: a run that stops at once stops at a gap
      have hround : x = [] → y ≠ [] := by
        rintro hnil rfl
        refine (hstop hnil).elim (fun hspace => ?_) hclose
        simp [hy, hz, hg] at hspace
      have hpos : 0 < x.length + y.length := by
        by_contra hzero
        exact hround (List.length_eq_zero_iff.mp (by omega)) (List.length_eq_zero_iff.mp (by omega))
      have hquoted := hzagain r (i + x.length + y.length) k (by
        simp only [List.length_append] at hk
        omega) hr
      have hclose' : (f :: (w ++ r)).head? ≠ some quote := by
        rw [hhead] at hclose
        exact hclose
      rw [quotedFrom_succ, goesOn_again hgo (by simp) hrest hr, if_neg (by simp)]
      simp only [List.append_assoc]
      rw [← hwr, hread, Option.bind_some, if_neg hclose']
      simp only [hwr, hgap', Option.bind_some, hquoted, Option.map_some]
      simp [Nat.add_assoc]

/-- A quoted scalar is read again before any text that starts with the same word. -/
theorem quotedScalar_again {token : Token} (hquote : quote = '\'' ∨ quote = '"')
    (hc : c.rest.head? = some quote) (h : Scan.quotedScalar quote c = some (token, d)) :
    ∃ x, c.rest = x ++ d.rest ∧ x.getLast? = some quote ∧ c.line ≤ d.line ∧
      Finds (Scan.quotedScalar quote) c token d x := by
  obtain ⟨⟨text, d'⟩, hread, heq⟩ := Option.map_eq_some_iff.mp h
  obtain ⟨rfl, rfl⟩ := Prod.mk.inj heq
  obtain ⟨q, hq⟩ := List.head?_eq_some_iff.mp hc
  obtain ⟨x, hx, hlast, hline, hagain⟩ := quotedFrom_again hquote hread
  simp only [Cursor.advance, hq, List.drop_succ_cons, List.drop_zero] at hx hline hagain
  refine ⟨quote :: x, by rw [hq, hx]; rfl, by simp [List.getLast?_cons, hlast], hline,
    fun r i hr => ?_⟩
  have hread' := hagain r (i + 1) ((quote :: x ++ r).length + 1) (by simp; omega) hr
  simp only [Scan.quotedScalar, readQuoted, Cursor.advance, List.cons_append, List.drop_succ_cons,
    List.drop_zero] at hread' ⊢
  rw [hread']
  simp [Nat.add_comm, Nat.add_left_comm]

end ClusterConfig.Yaml
