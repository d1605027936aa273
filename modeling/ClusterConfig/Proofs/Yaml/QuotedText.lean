import Mathlib
import ClusterConfig.Proofs.Yaml.PlainText

/-!
# Quoted texts are read as they were written

Between quotes, a word stands as it is but for doubled quotes or escapes. Both kinds of quotes share
one induction over the words of a text; `Quoting` is what it asks of each.
-/

set_option autoImplicit false

namespace ClusterConfig.Yaml

open Spot

/-- A run up to a quote or a blank. -/
def quotedRun (quote : Char) (text : List Char) : Option QuotedRun :=
  if quote = '"' then doubleRun (text.length + 1) text else some (singleRun text)

/-- A closing quote, or a blank, ends a run. -/
def StopsRun (quote : Char) (text : List Char) : Prop :=
  (∃ rest, text = quote :: rest ∧ rest.head? ≠ some quote) ∨
    ∃ x rest, text = x :: rest ∧ isSpaceOrBreak x = true ∧ x ≠ quote

/-- How the inside of a quoted text is written: words, and gaps as they are, with an indent after
line breaks. -/
structure Quoting (quote : Char) (blank : Char → Bool) (indent : Nat)
    (inside : List Char → List Char) : Prop where
  run : ∀ (word rest : List Char), (∀ c ∈ word, blank c = false) → StopsRun quote rest →
    quotedRun quote (inside word ++ rest) = some ⟨word, (inside word).length, false⟩
  spaces : ∀ (word rest : List Char) (n : Nat), (∀ c ∈ word, blank c = false) →
    inside (word ++ (Yaml.spaces n ++ rest)) = inside word ++ (Yaml.spaces n ++ inside rest)
  breaks : ∀ (word breaks rest : List Char) (b : Char), (∀ c ∈ word, blank c = false) →
    (∀ c ∈ b :: breaks, blank c = true ∧ IsBreak c) → (∀ c ∈ rest.head?, blank c = false) →
      inside (word ++ (b :: breaks ++ rest)) =
        inside word ++ (b :: breaks ++ (Yaml.spaces indent ++ inside rest))
  starts : ∀ rest : List Char, (∀ c ∈ rest.head?, blank c = false) → ∀ tail : List Char,
    ∀ c ∈ (inside rest ++ quote :: tail).head?, isSpaceOrBreak c = false
  length : ∀ s : List Char, s.length ≤ (inside s).length

/-- No character of a text is a gap of line breaks. -/
def OneLine (blank : Char → Bool) (s : List Char) : Prop :=
  ∀ c ∈ s, (blank c && isLineBreak c) = false

variable {quote : Char} {blank : Char → Bool} {indent : Nat} {inside : List Char → List Char}

/-- One round of the reader: a run, and then the closing quote or a gap. -/
theorem quotedFrom_run {fuel : Nat} {c : Cursor} {run : QuotedRun} (hb : boundary? c = none)
    (hne : c.atEnd = false) (hrun : quotedRun quote c.rest = some run)
    (he : run.escapedBreak = false) :
    quotedFrom quote (fuel + 1) c =
      if (c.advance run.length).rest.head? = some quote then
        some (run.text, c.advance (run.length + 1))
      else
        (Gap.read 0 ((c.advance run.length).rest.length + 1) (c.advance run.length)).bind fun gap =>
          (quotedFrom quote fuel gap.2).map fun found =>
            (run.text ++ (gap.1.folded ++ found.1), found.2) := by
  have hmap (o : Option (Gap × Cursor)) :
      (o.bind fun gap => (quotedFrom quote fuel gap.2).bind fun found =>
        some (run.text ++ (gap.1.folded ++ found.1), found.2)) =
      o.bind fun gap => (quotedFrom quote fuel gap.2).map fun found =>
        (run.text ++ (gap.1.folded ++ found.1), found.2) := by
    simp [Option.map_eq_bind]
  rw [quotedRun] at hrun
  rw [quotedFrom, ← hmap]
  by_cases hq : quote = '"'
  · subst hq
    rw [if_pos rfl] at hrun
    simp [hb, hne, hrun, he, advance_advance]
  · rw [if_neg hq] at hrun
    obtain rfl := Option.some.inj hrun
    simp [hb, hne, hq, he, advance_advance]

theorem folded_breaks {b : Char} (breaks : List Char) (h : b ≠ '\n') :
    Gap.folded ⟨[], b :: breaks⟩ = b :: breaks := by
  rw [Gap.folded]
  split
  · rename_i heq
    cases heq
  · rename_i heq
    exact absurd (List.cons.inj heq).1 h
  · rename_i heq
    exact absurd (List.cons.inj heq).1 h
  · rfl

theorem boundary?_of_column {c : Cursor} (h : 0 < c.column) : boundary? c = none := by
  rw [boundary?, if_neg (Nat.ne_of_gt h)]

/-- A word in front of spaces, which are read as they are. -/
theorem quotedFrom_spaces {word rest tail : List Char} {n fuel : Nat} {c : Cursor}
    (hq : Quoting quote blank indent inside) (hquote : isSpaceOrBreak quote = false)
    (hw : ∀ c ∈ word, blank c = false) (hrest : ∀ c ∈ rest.head?, blank c = false)
    (hc : c.rest = inside word ++ (spaces (n + 1) ++ (inside rest ++ quote :: tail)))
    (hcol : 0 < c.column) :
    quotedFrom quote (fuel + 1) c =
      (quotedFrom quote fuel (c.advance ((inside word).length + (n + 1)))).map fun found =>
        (word ++ (spaces (n + 1) ++ found.1), found.2) := by
  have hspace : ' ' ≠ quote := by
    rintro rfl
    exact absurd hquote (by decide)
  have hrun := hq.run word (spaces (n + 1) ++ (inside rest ++ quote :: tail)) hw
    (.inr ⟨' ', _, rfl, by decide, hspace⟩)
  rw [← hc] at hrun
  have hafter : (c.advance (inside word).length).rest =
      spaces (n + 1) ++ (inside rest ++ quote :: tail) := by simp [Cursor.advance, hc]
  have hgap : Gap.read 0 ((c.advance (inside word).length).rest.length + 1)
      (c.advance (inside word).length) =
        some (⟨spaces (n + 1), []⟩, c.advance ((inside word).length + (n + 1))) := by
    rw [← advance_advance]
    exact gap_spaces (hq.starts rest hrest tail) _ hafter (by simp [hafter]; omega)
  have hopen : (c.advance (inside word).length).rest.head? ≠ some quote := by
    simpa [hafter, spaces, List.replicate_succ] using hspace
  rw [quotedFrom_run (boundary?_of_column hcol) (by simp [Cursor.atEnd, hc]) hrun rfl,
    if_neg hopen, hgap, Option.bind_some]
  rfl

/-- A word in front of line breaks, which are read as they are unless the first one folds. -/
theorem quotedFrom_breaks {word breaks rest tail : List Char} {b : Char} {fuel : Nat} {c : Cursor}
    (hq : Quoting quote blank indent inside) (hquote : isSpaceOrBreak quote = false)
    (hw : ∀ c ∈ word, blank c = false) (hb : ∀ c ∈ b :: breaks, IsBreak c) (hnl : b ≠ '\n')
    (hrest : ∀ c ∈ rest.head?, blank c = false)
    (hc : c.rest = inside word ++
      (b :: (breaks ++ (spaces indent ++ (inside rest ++ quote :: tail)))))
    (hcol : 0 < c.column) :
    quotedFrom quote (fuel + 1) c =
      (quotedFrom quote fuel ⟨inside rest ++ quote :: tail,
        c.index + (inside word).length + 1 + breaks.length + indent,
        c.line + 1 + breaks.length, indent⟩).map fun found =>
          (word ++ (b :: breaks ++ found.1), found.2) := by
  obtain ⟨hbreak, hbreaks⟩ := List.forall_mem_cons.mp hb
  have hblank : isSpaceOrBreak b = true := by simp [isSpaceOrBreak, hbreak.isLineBreak]
  have hbq : b ≠ quote := by
    rintro rfl
    rw [hquote] at hblank
    cases hblank
  have hrun := hq.run word (b :: (breaks ++ (spaces indent ++ (inside rest ++ quote :: tail)))) hw
    (.inr ⟨b, _, rfl, hblank, hbq⟩)
  rw [← hc] at hrun
  have hafter : c.advance (inside word).length =
      ⟨b :: (breaks ++ (spaces indent ++ (inside rest ++ quote :: tail))),
        c.index + (inside word).length, c.line, c.column + (inside word).length⟩ := by
    simp [Cursor.advance, hc]
  have hgap : Gap.read 0 ((c.advance (inside word).length).rest.length + 1)
      (c.advance (inside word).length) =
        some (⟨[], b :: breaks⟩, ⟨inside rest ++ quote :: tail,
          c.index + (inside word).length + 1 + breaks.length + indent,
          c.line + 1 + breaks.length, indent⟩) := by
    rw [hafter]
    exact gap_breaks hbreak hbreaks (hq.starts rest hrest tail) _ _ _ (by simp)
  have hopen : (c.advance (inside word).length).rest.head? ≠ some quote := by
    simpa [hafter] using hbq
  rw [quotedFrom_run (boundary?_of_column hcol) (by simp [Cursor.atEnd, hc]) hrun rfl,
    if_neg hopen, hgap, Option.bind_some, folded_breaks breaks hnl]

theorem quotedFrom_text {s : List Char} (hq : Quoting quote blank indent inside)
    (hquote : isSpaceOrBreak quote = false) (hs : Worded blank s) :
    ∀ (c : Cursor) (tail : List Char) (fuel : Nat), c.rest = inside s ++ quote :: tail →
      tail.head? ≠ some quote → 0 < c.column → (∀ x ∈ s, blank x = true → x ≠ '\n') →
        0 < indent ∨ OneLine blank s → s.length + 1 ≤ fuel →
          ∃ d, quotedFrom quote fuel c = some (s, d) ∧ d.rest = tail ∧ c.line ≤ d.line ∧
            (OneLine blank s → d = c.advance ((inside s).length + 1)) := by
  induction hs with
  | @word word hw =>
    intro c tail fuel hc ht hcol _ _ hf
    obtain ⟨k, rfl⟩ : ∃ k, fuel = k + 1 := ⟨fuel - 1, by omega⟩
    have hrun := hq.run word (quote :: tail) hw (.inl ⟨tail, rfl, ht⟩)
    rw [← hc] at hrun
    refine ⟨c.advance ((inside word).length + 1), ?_, ?_, le_rfl, fun _ => rfl⟩
    · rw [quotedFrom_run (boundary?_of_column hcol) (by simp [Cursor.atEnd, hc]) hrun rfl,
        if_pos (by simp [Cursor.advance, hc])]
    · simp [Cursor.advance, hc]
  | @spaces word rest n hw hrest more ih =>
    intro c tail fuel hc ht hcol hnl hi hf
    obtain ⟨k, rfl⟩ : ∃ k, fuel = k + 1 := ⟨fuel - 1, by omega⟩
    have hinside := hq.spaces word rest (n + 1) hw
    have hc' : c.rest = inside word ++ (Yaml.spaces (n + 1) ++ (inside rest ++ quote :: tail)) := by
      rw [hc, hinside]
      simp
    obtain ⟨d, hd, hdrest, hline, hone⟩ := ih (c.advance ((inside word).length + (n + 1))) tail k
      (by simp [Cursor.advance, hc']) ht (Nat.lt_of_lt_of_le hcol (Nat.le_add_right _ _))
      (fun x hx => hnl x (by simp [hx])) (hi.imp_right fun h x hx => h x (by simp [hx]))
      (by simp at hf; omega)
    refine ⟨d, ?_, hdrest, hline, fun h => ?_⟩
    · rw [quotedFrom_spaces hq hquote hw hrest hc' hcol, hd]
      rfl
    · rw [hone fun x hx => h x (by simp [hx]), advance_advance, hinside]
      simp [Nat.add_assoc]
  | @breaks word rest b breaks hw hb hrest more ih =>
    intro c tail fuel hc ht hcol hnl hi hf
    obtain ⟨k, rfl⟩ : ∃ k, fuel = k + 1 := ⟨fuel - 1, by omega⟩
    have hinside := hq.breaks word breaks rest b hw hb hrest
    have hc' : c.rest = inside word ++
        (b :: (breaks ++ (Yaml.spaces indent ++ (inside rest ++ quote :: tail)))) := by
      rw [hc, hinside]
      simp
    obtain ⟨hblank, hbreak⟩ := hb b (by simp)
    -- the text goes on at the indent, which is therefore not the margin
    have hmulti : ¬ OneLine blank (word ++ (b :: breaks ++ rest)) := fun h => by
      simpa [hblank, hbreak.isLineBreak] using h b (by simp)
    obtain ⟨d, hd, hdrest, hline, -⟩ := ih ⟨inside rest ++ quote :: tail,
        c.index + (inside word).length + 1 + breaks.length + indent,
        c.line + 1 + breaks.length, indent⟩ tail k rfl ht (hi.resolve_right hmulti)
      (fun x hx => hnl x (by simp [hx])) (hi.imp_right fun h x hx => h x (by simp [hx]))
      (by simp at hf; omega)
    refine ⟨d, ?_, hdrest, ?_, fun h => absurd h hmulti⟩
    · rw [quotedFrom_breaks hq hquote hw (fun x hx => (hb x hx).2) (hnl b (by simp) hblank) hrest
        hc' hcol, hd]
      rfl
    · simp at hline
      omega

variable {p : Spot}

theorem next_quoted (s tail : List Char) (hq : Quoting quote blank indent inside)
    (hquote : quote = '\'' ∨ quote = '"') (hs : Worded blank s)
    (hp : p.rest = quote :: (inside s ++ quote :: tail)) (ht : tail.head? ≠ some quote)
    (hnl : ∀ x ∈ s, blank x = true → x ≠ '\n') (hi : 0 < indent ∨ OneLine blank s)
    (index line : Nat) :
    ∃ column index' line', line ≤ line' ∧
      (p.scan none index line).next =
        some (scan ⟨tail, column, false, p.indents, .scalar .quoted s :: p.tokens⟩
          (p.newKey index line) index' line') ∧
      (OneLine blank s → column = p.column + ((inside s).length + 2) ∧
        index' = index + ((inside s).length + 2) ∧ line' = line) := by
  have hnext : (p.scan none index line).next =
      (p.scan none index line).atom (Scan.quotedScalar quote) := by
    rcases hquote with rfl | rfl <;> simp [Scan.next, scan, boundary?, hp]
  have hlength := hq.length s
  obtain ⟨d, hd, hrest, hline, hone⟩ := quotedFrom_text hq
    (by rcases hquote with rfl | rfl <;> decide) hs
    ((p.scan (p.newKey index line) index line).cursor.advance 1) tail (p.rest.length + 1)
    (by simp [Cursor.advance, scan, hp]) ht (Nat.succ_pos _) hnl hi (by simp [hp]; omega)
  have hread : readQuoted quote ⟨p.rest, index, line, p.column⟩ = some (s, d) := hd
  refine ⟨d.column, d.index, d.line, hline, ?_, fun h => ?_⟩
  · rw [hnext, Scan.atom, saveKey_scan]
    simp [Scan.quotedScalar, hread, scan, Scan.allowKey, Scan.goTo, Scan.put, ← hrest]
  · rw [hone h]
    simp [Cursor.advance, scan]
    omega

theorem scansKey_quoted {s : List Char} (hq : Quoting quote blank indent inside)
    (hquote : quote = '\'' ∨ quote = '"') (hs : Worded blank s) (hone : OneLine blank s)
    (hlen : (inside s).length ≤ 1022) :
    ScansKey (quote :: inside s ++ [quote]) (.scalar .quoted s) := by
  refine ⟨by simp, by simp; omega, fun p more hp _ _ _ index line => ?_⟩
  have hnl (x : Char) (hx : x ∈ s) (hb : blank x = true) : x ≠ '\n' := by
    rintro rfl
    simpa [hb, isLineBreak] using hone '\n' hx
  obtain ⟨column, index', line', -, hnext, hat⟩ := next_quoted s (':' :: more) hq hquote hs
    (by simpa using hp) (by rcases hquote with rfl | rfl <;> simp) hnl (.inr hone) index line
  obtain ⟨rfl, rfl, rfl⟩ := hat hone
  rw [hnext]
  simp [Spot.read]

theorem scans_quoted {s : List Char} (hq : Quoting quote blank indent inside)
    (hquote : quote = '\'' ∨ quote = '"') (hs : Worded blank s)
    (hnl : ∀ x ∈ s, blank x = true → x ≠ '\n') (hi : 0 < indent ∨ OneLine blank s)
    (outer : Option Nat) :
    Scans outer (quote :: inside s ++ [quote] ++ ['\n']) [.scalar .quoted s] := by
  apply scans_of_next
  intro p more hp index line
  obtain ⟨column, index', line', hl, hnext, -⟩ := next_quoted s ('\n' :: more) hq hquote hs
    (by simpa using hp) (by rcases hquote with rfl | rfl <;> simp) hnl hi index line
  exact ⟨column, index', line', hl, hnext⟩

/-! ## Single quotes -/

theorem singleInside_append {word rest : List Char} (indent : Nat)
    (hw : ∀ c ∈ word, isLineBreak c = false) :
    singleInside indent false (word ++ rest) =
      singleInside indent false word ++ singleInside indent false rest := by
  induction word with
  | nil => simp [singleInside]
  | cons c more ih =>
    have hmore := ih fun x hx => hw x (by simp [hx])
    simp [singleInside, hw c (by simp), hmore]

theorem singleInside_breaks {b : Char} {breaks rest : List Char} {atStart : Bool} (indent : Nat)
    (hb : ∀ c ∈ b :: breaks, isLineBreak c = true) (hr : ∀ c ∈ rest.head?, isLineBreak c = false) :
    singleInside indent atStart (b :: breaks ++ rest) =
      b :: breaks ++ (spaces indent ++ singleInside indent false rest) := by
  induction breaks generalizing b atStart with
  | nil =>
    have hstart : singleInside indent true rest =
        spaces indent ++ singleInside indent false rest := by
      cases rest with
      | nil => simp [singleInside]
      | cons c more => simp [singleInside, hr c (by simp)]
    simp [singleInside, hb b (by simp), hstart]
  | cons x more ih =>
    have hmore : singleInside indent true (x :: more ++ rest) = _ :=
      ih fun c hc => hb c (List.mem_cons_of_mem _ hc)
    rw [List.cons_append, singleInside, if_pos (hb b (by simp)), hmore]
    rfl

theorem isLineBreak_of_not_blank {c : Char} (h : isSpaceOrBreak c = false) :
    isLineBreak c = false :=
  (Bool.or_eq_false_iff.mp h).2

theorem singleRun_stops {rest : List Char} (h : StopsRun '\'' rest) :
    singleRun rest = ⟨[], 0, false⟩ := by
  rcases h with ⟨more, rfl, hm⟩ | ⟨x, more, rfl, hx, hq⟩
  · cases more with
    | nil => simp [singleRun]
    | cons y _ =>
      have hy : y ≠ '\'' := by simpa using hm
      simp [singleRun, hy]
  · simp [singleRun, hx, hq]

theorem singleRun_word {word rest : List Char} (indent : Nat)
    (hw : ∀ c ∈ word, isSpaceOrBreak c = false) (hr : StopsRun '\'' rest) :
    singleRun (singleInside indent false word ++ rest) =
      ⟨word, (singleInside indent false word).length, false⟩ := by
  induction word with
  | nil => simpa [singleInside] using singleRun_stops hr
  | cons c more ih =>
    have hmore := ih fun x hx => hw x (by simp [hx])
    have hc := hw c (by simp)
    by_cases hq : c = '\''
    · subst hq
      simp [singleInside, isLineBreak_of_not_blank hc, singleRun, hmore, QuotedRun.cons]
    · simp [singleInside, isLineBreak_of_not_blank hc, hq, singleRun, hmore, QuotedRun.cons, hc]

theorem singleInside_spaces (indent n : Nat) : singleInside indent false (spaces n) = spaces n := by
  induction n with
  | zero => rfl
  | succ n ih =>
    have hspaces : spaces (n + 1) = ' ' :: spaces n := rfl
    have hbreak : isLineBreak ' ' = false := by decide
    rw [hspaces, singleInside, hbreak, ih]
    rfl

theorem length_le_singleInside (indent : Nat) (atStart : Bool) (s : List Char) :
    s.length ≤ (singleInside indent atStart s).length := by
  induction s generalizing atStart with
  | nil => simp
  | cons c rest ih =>
    rw [singleInside]
    split
    · simpa using ih true
    · have hrest := ih false
      have hone : 1 ≤ (if c = '\'' then ['\'', '\''] else [c]).length := by split <;> simp
      simp only [List.length_append, List.length_cons]
      omega

theorem quoting_single (indent : Nat) :
    Quoting '\'' isSpaceOrBreak indent (singleInside indent false) where
  run word rest hw hr := by simp [quotedRun, singleRun_word indent hw hr]
  spaces word rest n hw := by
    rw [singleInside_append indent fun c hc => isLineBreak_of_not_blank (hw c hc),
      singleInside_append indent fun c hc => by rw [eq_space_of_mem_spaces hc]; rfl,
      singleInside_spaces]
  breaks word breaks rest b hw hb hr := by
    rw [singleInside_append indent fun c hc => isLineBreak_of_not_blank (hw c hc),
      singleInside_breaks indent (fun c hc => (hb c hc).2.isLineBreak)
        fun c hc => isLineBreak_of_not_blank (hr c hc)]
  starts rest hr tail := by
    cases rest with
    | nil =>
      rintro c ⟨⟩
      decide
    | cons x more =>
      have hx := hr x (by simp)
      rw [singleInside, isLineBreak_of_not_blank hx]
      by_cases hq : x = '\'' <;> simp_all
  length := length_le_singleInside indent false

theorem isBreak_of_printable {c : Char} (hp : isPrintable c = true) (hb : isLineBreak c = true) :
    IsBreak c := by
  have hr : c ≠ '\r' := by
    rintro rfl
    exact absurd hp (by decide)
  have hn : c ≠ '\u0085' := by
    rintro rfl
    exact absurd hp (by decide)
  simpa [IsBreak, isLineBreak, hr, hn] using hb

/-- What the writer sees to before it puts a text in single quotes. -/
theorem allowsSingle_iff {s : List Char} : allowsSingle s = true ↔
    (∀ c ∈ s, isPrintable c = true) ∧ hasNeighbours isSpace isLineBreak s = false ∧
      hasNeighbours isLineBreak isSpace s = false := by
  simp [allowsSingle, isWritable, and_assoc]

theorem worded_of_allowsSingle {s : List Char} (h : allowsSingle s = true) :
    Worded isSpaceOrBreak s := by
  obtain ⟨hp, hsb, hbs⟩ := allowsSingle_iff.mp h
  have hbreak : (fun c => isSpaceOrBreak c && isLineBreak c) = isLineBreak := by
    funext c
    cases hc : isLineBreak c <;> simp [isSpaceOrBreak, hc]
  refine worded (fun c hc hb => ?_) (by rwa [hbreak]) (by rwa [hbreak])
  rw [isSpaceOrBreak_of_printable (hp c hc), isEdge, Bool.or_eq_true] at hb
  exact hb.imp (by simp [isSpace]) (isBreak_of_printable (hp c hc))

theorem scans_single {s : List Char} {indent : Nat} (h : allowsSingle s = true) (hn : '\n' ∉ s)
    (hi : 0 < indent) (outer : Option Nat) :
    Scans outer (writeSingle indent s ++ ['\n']) [.scalar .quoted s] :=
  scans_quoted (quoting_single indent) (.inl rfl) (worded_of_allowsSingle h)
    (fun _ hx _ hxn => hn (hxn ▸ hx)) (.inl hi) outer

theorem length_singleInside_le {s : List Char} (indent : Nat) (h : ∀ c ∈ s, isLineBreak c = false) :
    (singleInside indent false s).length ≤ 2 * s.length := by
  induction s with
  | nil => simp [singleInside]
  | cons c rest ih =>
    have hrest := ih fun x hx => h x (by simp [hx])
    have htwo : (if c = '\'' then ['\'', '\''] else [c]).length ≤ 2 := by split <;> simp
    rw [singleInside, h c (by simp)]
    simp only [Bool.false_eq_true, if_false, List.nil_append, List.length_append, List.length_cons]
    omega

theorem scansKey_single {s : List Char} {indent : Nat} (h : allowsSingle s = true)
    (hb : ∀ c ∈ s, isLineBreak c = false) (hlen : s.length ≤ 128) :
    ScansKey (writeSingle indent s) (.scalar .quoted s) := by
  have hinside := length_singleInside_le indent hb
  exact scansKey_quoted (quoting_single indent) (.inl rfl) (worded_of_allowsSingle h)
    (fun c hc => by simp [hb c hc]) (by omega)

/-! ## Double quotes -/

theorem hexValue?_toUpper {d : Nat} (h : d < 16) :
    Json.hexValue? (Json.hexDigit d).toUpper = some d := by
  revert d
  decide

theorem hexDigits_values (width n : Nat) :
    ∃ values, (hexDigits width n).mapM Json.hexValue? = some values ∧ values.length = width ∧
      values.foldl (fun acc v => acc * 16 + v) 0 = n % 16 ^ width := by
  induction width generalizing n with
  | zero => exact ⟨[], rfl, rfl, (Nat.mod_one n).symm⟩
  | succ w ih =>
    obtain ⟨values, hmap, hlen, hfold⟩ := ih (n / 16)
    have hlast := hexValue?_toUpper (Nat.mod_lt n (by decide : 0 < 16))
    refine ⟨values ++ [n % 16], ?_, by simp [hlen], ?_⟩
    · rw [hexDigits, List.mapM_append, hmap]
      simp [hlast]
    · rw [List.foldl_append, hfold, Nat.pow_succ, Nat.mul_comm (16 ^ w) 16, Nat.mod_mul]
      simp [Nat.mul_comm, Nat.add_comm]

theorem length_hexDigits (width n : Nat) : (hexDigits width n).length = width := by
  induction width generalizing n with
  | zero => rfl
  | succ w ih => simp [hexDigits, ih]

theorem isValidChar_toNat (c : Char) : c.toNat.isValidChar := c.valid

theorem numbered?_hexDigits {width : Nat} {c : Char} (rest : List Char)
    (h : c.toNat < 16 ^ width) : numbered? width (hexDigits width c.toNat ++ rest) = some c := by
  obtain ⟨values, hmap, hlen, hfold⟩ := hexDigits_values width c.toNat
  have htake : (hexDigits width c.toNat ++ rest).take width = hexDigits width c.toNat := by
    rw [List.take_append_of_le_length (by rw [length_hexDigits]),
      List.take_of_length_le (by rw [length_hexDigits])]
  rw [Nat.mod_eq_of_lt h] at hfold
  rw [numbered?, htake, hmap]
  simp only [Option.bind_eq_bind, Option.bind_some, hlen, hfold, Char.ofNat_toNat]
  rw [if_pos (by simpa using isValidChar_toNat c)]

theorem isLineBreak_eq_false {c : Char} (hn : c ≠ '\n') (hr : c ≠ '\r') (h85 : c.toNat ≠ 0x85)
    (h28 : c.toNat ≠ 0x2028) (h29 : c.toNat ≠ 0x2029) : isLineBreak c = false := by
  have hne {d : Char} (h : c.toNat ≠ d.toNat) : c ≠ d := fun heq => h (congrArg Char.toNat heq)
  have h1 : c ≠ '\u0085' := hne h85
  have h2 : c ≠ '\u2028' := hne h28
  have h3 : c ≠ '\u2029' := hne h29
  simp [isLineBreak, isSeparator, hn, hr, h1, h2, h3]

/-- How a character is written: as itself, or after a backslash by a letter or its number. -/
inductive Escapes (c : Char) : List Char → Prop
  | self (hp : isPrintable c = true) (hb : isLineBreak c = false) (hq : c ≠ '"')
      (hs : c ≠ '\\') : Escapes c [c]
  | letter (x : Char) (hx : escaped? x = some c) (hp : isPrintable x = true)
      (hb : isLineBreak x = false) (hn : numberWidth? x = none) : Escapes c ['\\', x]
  | number (x : Char) (width : Nat) (hx : numberWidth? x = some width)
      (hp : isPrintable x = true) (hb : isLineBreak x = false)
      (hw : width ≤ 4) (hn : c.toNat < 16 ^ width) :
      Escapes c ('\\' :: x :: hexDigits width c.toNat)

theorem escapes (c : Char) : Escapes c (escape c) := by
  have hof {n : Nat} (h : c.toNat = n) : some (Char.ofNat n) = some c := by
    rw [← h, Char.ofNat_toNat]
  have hor {p : Prop} [Decidable p] {a b : List Char} (ha : p → Escapes c a)
      (hb : ¬ p → Escapes c b) : Escapes c (if p then a else b) := by
    split
    · exact ha ‹_›
    · exact hb ‹_›
  unfold escape
  refine hor (fun h => .letter '0' (h ▸ rfl) rfl rfl rfl) fun _ => ?_
  refine hor (fun h => .letter 'a' (hof h) rfl rfl rfl) fun _ => ?_
  refine hor (fun h => .letter 'b' (hof h) rfl rfl rfl) fun _ => ?_
  refine hor (fun h => .letter 't' (h ▸ rfl) rfl rfl rfl) fun _ => ?_
  refine hor (fun h => .letter 'n' (h ▸ rfl) rfl rfl rfl) fun hn => ?_
  refine hor (fun h => .letter 'v' (hof h) rfl rfl rfl) fun _ => ?_
  refine hor (fun h => .letter 'f' (hof h) rfl rfl rfl) fun _ => ?_
  refine hor (fun h => .letter 'r' (h ▸ rfl) rfl rfl rfl) fun hr => ?_
  refine hor (fun h => .letter 'e' (hof h) rfl rfl rfl) fun _ => ?_
  refine hor (fun h => .letter '"' (by rw [h]; rfl) rfl rfl rfl) fun hq => ?_
  refine hor (fun h => .letter '\\' (by rw [h]; rfl) rfl rfl rfl) fun hs => ?_
  refine hor (fun h => .letter 'N' (hof h) rfl rfl rfl) fun h85 => ?_
  refine hor (fun h => .letter 'L' (hof h) rfl rfl rfl) fun h28 => ?_
  refine hor (fun h => .letter 'P' (hof h) rfl rfl rfl) fun h29 => ?_
  refine hor (fun h => .self h (isLineBreak_eq_false hn hr h85 h28 h29) hq hs) fun hp => ?_
  refine hor (fun h => .number 'x' 2 rfl rfl rfl (by decide) (by omega)) fun _ => ?_
  refine hor (fun h => .number 'u' 4 rfl rfl rfl (by decide) (by omega)) fun hbig => ?_
  exact absurd (by simp [isPrintable]; omega) hp

theorem Escapes.length {c : Char} {written : List Char} (h : Escapes c written) :
    1 ≤ written.length ∧ written.length ≤ 6 := by
  cases h with
  | self => simp
  | letter => simp
  | number x width _ _ _ hw => simp [length_hexDigits]; omega

theorem Escapes.not_blank {c : Char} (hp : isPrintable c = true) (hb : isLineBreak c = false)
    (hc : c ≠ ' ') : isSpaceOrBreak c = false := by
  rw [isSpaceOrBreak_of_printable hp]
  simp [isEdge, isSpace, hc, hb]

theorem Escapes.starts {c : Char} {written : List Char} (h : Escapes c written) (hc : c ≠ ' ')
    (tail : List Char) : ∀ x ∈ (written ++ tail).head?, isSpaceOrBreak x = false := by
  cases h with
  | self hp hb => simpa using not_blank hp hb hc
  | letter => simp [isSpaceOrBreak, isSpaceOrTab, isLineBreak, isSeparator]
  | number => simp [isSpaceOrBreak, isSpaceOrTab, isLineBreak, isSeparator]

theorem Escapes.doubleRun {c : Char} {written : List Char} (h : Escapes c written) (hc : c ≠ ' ')
    (rest : List Char) (fuel : Nat) :
    doubleRun (fuel + 1) (written ++ rest) =
      (doubleRun fuel rest).map fun run => run.cons c written.length := by
  cases h with
  | self hp hb hq hs =>
    simp [Yaml.doubleRun, hq, not_blank hp hb hc]
  | letter x hx _ hb hn =>
    cases hrun : Yaml.doubleRun fuel rest <;>
      simp [Yaml.doubleRun, hb, hn, hx, hrun, QuotedRun.cons]
  | number x width hx _ hb hw hn =>
    have hdrop : (hexDigits width c.toNat ++ rest).drop width = rest := by simp [length_hexDigits]
    cases hrun : Yaml.doubleRun fuel rest <;>
      simp [Yaml.doubleRun, hb, hx, numbered?_hexDigits rest hn, length_hexDigits, hrun,
        QuotedRun.cons]

theorem doubleRun_word {word rest : List Char} (hw : ∀ c ∈ word, c ≠ ' ')
    (hr : StopsRun '"' rest) (fuel : Nat) (hf : word.length + 1 ≤ fuel) :
    doubleRun fuel (word.flatMap escape ++ rest) =
      some ⟨word, (word.flatMap escape).length, false⟩ := by
  induction word generalizing fuel with
  | nil =>
    obtain ⟨k, rfl⟩ : ∃ k, fuel = k + 1 := ⟨fuel - 1, by simp at hf; omega⟩
    rcases hr with ⟨more, rfl, -⟩ | ⟨x, more, rfl, hx, hq⟩
    · simp [doubleRun]
    · have hs : x ≠ '\\' := by
        rintro rfl
        exact absurd hx (by decide)
      simp [doubleRun, hx]
  | cons c more ih =>
    obtain ⟨k, rfl⟩ : ∃ k, fuel = k + 1 := ⟨fuel - 1, by simp at hf; omega⟩
    have hmore := ih (fun x hx => hw x (by simp [hx])) k (by simp at hf; omega)
    rw [List.flatMap_cons, List.append_assoc, (escapes c).doubleRun (hw c (by simp)), hmore]
    simp [QuotedRun.cons, Nat.add_comm]

theorem length_le_flatMap_escape (s : List Char) :
    s.length ≤ (s.flatMap escape).length ∧ (s.flatMap escape).length ≤ 6 * s.length := by
  induction s with
  | nil => simp
  | cons c rest ih =>
    have hc := (escapes c).length
    simp only [List.flatMap_cons, List.length_append, List.length_cons]
    omega

theorem flatMap_escape_spaces (n : Nat) : (spaces n).flatMap escape = spaces n := by
  induction n with
  | zero => rfl
  | succ n ih =>
    have hspaces : spaces (n + 1) = ' ' :: spaces n := rfl
    have hspace : escape ' ' = [' '] := by decide
    rw [hspaces, List.flatMap_cons, ih, hspace]
    rfl

theorem quoting_double : Quoting '"' (· = ' ') 0 (List.flatMap escape) where
  run word rest hw hr := by
    rw [quotedRun, if_pos rfl]
    have hlen := (length_le_flatMap_escape word).1
    exact doubleRun_word (fun c hc => by simpa using hw c hc) hr _
      (by rw [List.length_append]; omega)
  spaces word rest n _ := by simp [flatMap_escape_spaces]
  breaks word breaks rest b _ hb _ := by
    obtain ⟨hblank, hbreak⟩ := hb b (by simp)
    exact absurd (by simpa using hblank) hbreak.ne_space
  starts rest hr tail := by
    cases rest with
    | nil =>
      rintro c ⟨⟩
      decide
    | cons x more =>
      have hx : x ≠ ' ' := by simpa using hr x (by simp)
      rw [List.flatMap_cons, List.append_assoc]
      exact (escapes x).starts hx _
  length s := (length_le_flatMap_escape s).1

theorem oneLine_space (s : List Char) : OneLine (· = ' ') s := by
  intro c _
  rw [Bool.and_eq_false_imp]
  intro hc
  rw [of_decide_eq_true hc]
  rfl

theorem worded_space (s : List Char) : Worded (· = ' ') s :=
  worded (fun _ _ hc => .inl (of_decide_eq_true hc)) (hasNeighbours_of_no_right (oneLine_space s))
    (hasNeighbours_of_no_left (oneLine_space s))

theorem scans_double (s : List Char) (outer : Option Nat) :
    Scans outer (writeDouble s ++ ['\n']) [.scalar .quoted s] :=
  scans_quoted quoting_double (.inr rfl) (worded_space s)
    (fun x _ hx hn => by simp [hn] at hx) (.inr (oneLine_space s)) outer

theorem scansKey_double {s : List Char} (hlen : s.length ≤ 128) :
    ScansKey (writeDouble s) (.scalar .quoted s) := by
  have hinside := (length_le_flatMap_escape s).2
  exact scansKey_quoted quoting_double (.inr rfl) (worded_space s) (oneLine_space s) (by omega)

end ClusterConfig.Yaml
