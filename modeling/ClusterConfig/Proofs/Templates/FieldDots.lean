import Mathlib
import ClusterConfig.Template.Normal
import ClusterConfig.Proofs.Text.Parts

/-!
# Dots in front of fields

Spans are found from left to right: two opening braces, and the first two closing braces behind
them. A dot of a span belongs to the name of a field if it is outside quotes, a letter follows it,
and it does not follow something that has attributes. Normalizing a template deletes exactly these
dots, and the result has none of them left.
-/

set_option autoImplicit false

namespace ClusterConfig

/-! ## The first occurrence of a mark -/

namespace Text

variable {c : Char} {mark s u v : List Char}

/-- A mark behind this text does not occur in front of its end. -/
def NoEarlier (mark before : List Char) : Prop :=
  ∀ u v, before ++ mark = u ++ (mark ++ v) → v = []

theorem noEarlier_nil (mark : List Char) : NoEarlier mark [] := by
  intro u v h
  have hlength := congrArg List.length h
  simp only [List.length_append, List.length_nil] at hlength
  exact List.length_eq_zero_iff.mp (by omega)

theorem noEarlier_cons :
    NoEarlier mark (c :: s) ↔ ¬ mark <+: c :: (s ++ mark) ∧ NoEarlier mark s := by
  constructor
  · refine fun h => ⟨fun ⟨v, hv⟩ => ?_, fun u v hs => ?_⟩
    · have hnil := h [] v hv.symm
      have hlength := congrArg List.length hv
      simp only [hnil, List.length_append, List.length_cons, List.length_nil] at hlength
      omega
    · exact h (c :: u) v (by rw [List.cons_append, hs, List.cons_append])
  · rintro ⟨hfirst, hrest⟩ u v hs
    cases u with
    | nil => exact absurd ⟨v, hs.symm⟩ hfirst
    | cons d u => exact hrest u v (List.cons.inj hs).2

/-- Behind what stands in front of its first occurrence a mark may be followed by anything. -/
theorem splitAt?_eq_some_iff (hne : mark ≠ []) :
    splitAt? mark s = some (u, v) ↔ s = u ++ (mark ++ v) ∧ NoEarlier mark u := by
  induction s generalizing u with
  | nil => simp [splitAt?, hne]
  | cons c s ih =>
    rw [splitAt?]
    cases hafter : afterStart? mark (c :: s) with
    | some after =>
      have hs := afterStart?_eq_some_iff.mp hafter
      simp only [Option.some.injEq, Prod.mk.injEq]
      constructor
      · rintro ⟨rfl, rfl⟩
        exact ⟨hs, noEarlier_nil mark⟩
      · rintro ⟨hu, hearlier⟩
        cases u with
        | nil => exact ⟨rfl, List.append_cancel_left (hs.symm.trans hu)⟩
        | cons d u =>
          have hfirst : mark <+: c :: s := ⟨after, hs.symm⟩
          have hlater : d :: (u ++ mark) <+: c :: s :=
            ⟨v, by rw [hu, List.cons_append, List.cons_append, List.append_assoc]⟩
          have hlength : mark.length ≤ (d :: (u ++ mark)).length := by
            simp only [List.length_cons, List.length_append]
            omega
          exact absurd (List.prefix_of_prefix_length_le hfirst hlater hlength)
            (noEarlier_cons.mp hearlier).1
    | none =>
      have hno : ¬ mark <+: c :: s := fun ⟨after, hs⟩ => by
        rw [afterStart?_eq_some_iff.mpr hs.symm] at hafter
        cases hafter
      simp only [Option.map_eq_some_iff, Prod.exists, Prod.mk.injEq]
      constructor
      · rintro ⟨before, after, hsplit, rfl, rfl⟩
        obtain ⟨rfl, hearlier⟩ := ih.mp hsplit
        refine ⟨rfl, noEarlier_cons.mpr ⟨fun hp => hno (hp.trans ⟨after, ?_⟩), hearlier⟩⟩
        rw [List.cons_append, List.append_assoc]
      · rintro ⟨hs, hearlier⟩
        cases u with
        | nil => exact absurd ⟨v, hs.symm⟩ hno
        | cons d u =>
          obtain ⟨rfl, rfl⟩ := List.cons.inj hs
          exact ⟨u, v, ih.mpr ⟨rfl, (noEarlier_cons.mp hearlier).2⟩, rfl, rfl⟩

/-- A text is taken apart at the first occurrence of a mark in one way only. -/
theorem NoEarlier.unique {u' v' : List Char} (hne : mark ≠ []) (hu : NoEarlier mark u)
    (hu' : NoEarlier mark u') (h : u ++ (mark ++ v) = u' ++ (mark ++ v')) : u = u' ∧ v = v' :=
  Prod.mk.inj (Option.some.inj (((splitAt?_eq_some_iff hne).mpr ⟨rfl, hu⟩).symm.trans
    ((splitAt?_eq_some_iff hne).mpr ⟨h, hu'⟩)))

end Text

namespace Template

open Text (NoEarlier isBlank)

variable {c : Char} {quote previous : Option Char} {s before inside after text : List Char}

/-! ## Positions -/

open scoped Classical in
/-- A text without the characters at some positions. -/
noncomputable def deleting (dropped : ℕ → Prop) (s : List Char) : List Char :=
  (s.zipIdx.filter fun entry => ¬ dropped entry.2).map Prod.fst

section Deleting

variable {dropped other : ℕ → Prop}

open scoped Classical in
theorem deleting_cons (dropped : ℕ → Prop) (c : Char) (s : List Char) :
    deleting dropped (c :: s) =
      if dropped 0 then deleting (fun i => dropped (i + 1)) s
      else c :: deleting (fun i => dropped (i + 1)) s := by
  have hrest : deleting (fun i => dropped (i + 1)) s =
      (((s.zipIdx.map (Prod.map id (· + 1))).filter fun entry => ¬ dropped entry.2).map
        Prod.fst) := by
    rw [List.filter_map, List.map_map]
    rfl
  rw [hrest, deleting, List.zipIdx_cons', List.filter_cons]
  by_cases h : dropped 0 <;> simp [h]

theorem deleting_congr (h : ∀ i < s.length, dropped i ↔ other i) :
    deleting dropped s = deleting other s := by
  induction s generalizing dropped other with
  | nil => rfl
  | cons c s ih =>
    have hrest := ih fun i hi => h (i + 1) (Nat.succ_lt_succ hi)
    have hfirst := h 0 (Nat.succ_pos _)
    rw [deleting_cons, deleting_cons, hrest]
    by_cases hc : dropped 0
    · rw [if_pos hc, if_pos (hfirst.mp hc)]
    · rw [if_neg hc, if_neg fun ho => hc (hfirst.mpr ho)]

theorem deleting_eq_self (h : ∀ i < s.length, ¬ dropped i) : deleting dropped s = s := by
  induction s generalizing dropped with
  | nil => rfl
  | cons c s ih =>
    rw [deleting_cons, if_neg (h 0 (Nat.succ_pos _)),
      ih fun i hi => h (i + 1) (Nat.succ_lt_succ hi)]

theorem deleting_append (dropped : ℕ → Prop) (s t : List Char) :
    deleting dropped (s ++ t) = deleting dropped s ++ deleting (fun i => dropped (s.length + i)) t := by
  induction s generalizing dropped with
  | nil => simp only [List.nil_append, List.length_nil, Nat.zero_add]; rfl
  | cons c s ih =>
    rw [List.cons_append, deleting_cons, deleting_cons, ih]
    have hshift : deleting (fun i => dropped (s.length + i + 1)) t =
        deleting (fun i => dropped ((c :: s).length + i)) t :=
      deleting_congr fun i _ => by rw [List.length_cons, Nat.add_right_comm]
    rw [hshift]
    split <;> rfl

end Deleting

/-! ## Dots of a span -/

/-- The quote that is open behind a character. -/
def noteQuote : Option Char → Char → Option Char
  | some q, c => if c = q then none else some q
  | none, c => if c = '"' ∨ c = '\'' then some c else none

/-- The quote that is open at the end of a text. -/
def openQuote (s : List Char) : Option Char := s.foldl noteQuote none

theorem openQuote_concat (s : List Char) (c : Char) :
    openQuote (s ++ [c]) = noteQuote (openQuote s) c := by
  rw [openQuote, List.foldl_concat, openQuote]

/-- A dot between these parts of a span belongs to the name of a field. -/
structure NamesField (before after : List Char) : Prop where
  unquoted : openQuote before = none
  opens : ∀ c, before.getLast? = some c → isBlank c = true ∨ c = '(' ∨ c = '|' ∨ c = ','
  named : ∃ c, after.head? = some c ∧ c.isAlpha = true

theorem opensField_iff :
    opensField previous = true ↔
      ∀ c, previous = some c → isBlank c = true ∨ c = '(' ∨ c = '|' ∨ c = ',' := by
  cases previous with
  | none => simp [opensField]
  | some c => simp [opensField, or_assoc]

/-- At this position of a span, behind what stands before, is a dot that belongs to the name of a
field. -/
def FieldDotOf (before inside : List Char) (i : ℕ) : Prop :=
  ∃ u v, inside = u ++ '.' :: v ∧ u.length = i ∧ NamesField (before ++ u) v

theorem FieldDotOf.lt {i : ℕ} (h : FieldDotOf before inside i) : i < inside.length := by
  obtain ⟨u, v, rfl, rfl, -⟩ := h
  simp

theorem fieldDotOf_succ (i : ℕ) :
    FieldDotOf before (c :: s) (i + 1) ↔ FieldDotOf (before ++ [c]) s i := by
  constructor
  · rintro ⟨u, v, hs, hlength, hdot⟩
    cases u with
    | nil => cases hlength
    | cons d u =>
      obtain ⟨rfl, rfl⟩ := List.cons.inj hs
      exact ⟨u, v, rfl, Nat.succ.inj hlength, by rwa [List.append_assoc]⟩
  · rintro ⟨u, v, rfl, rfl, hdot⟩
    exact ⟨c :: u, v, rfl, rfl, by rwa [List.append_assoc] at hdot⟩

/-! ## Stripping -/

/-- The first character is dropped behind what was read before it. -/
def Drops (quote previous : Option Char) (s : List Char) : Prop :=
  quote = none ∧ opensField previous = true ∧
    ∃ d rest, s = '.' :: d :: rest ∧ d.isAlpha = true

theorem stripFieldDots_drop (h : Drops quote previous s) :
    stripFieldDots quote previous s = stripFieldDots none (some '.') s.tail := by
  obtain ⟨rfl, hopens, d, rest, rfl, hd⟩ := h
  simp [stripFieldDots, hopens, isLetter, hd]

theorem stripFieldDots_keep (h : ¬ Drops quote previous (c :: s)) :
    stripFieldDots quote previous (c :: s) =
      c :: stripFieldDots (noteQuote quote c) (some c) s := by
  cases quote with
  | some q => rfl
  | none =>
    rw [stripFieldDots, noteQuote]
    by_cases hc : c = '"' ∨ c = '\''
    · simp [hc]
    · rw [if_neg (by simpa using hc), if_neg hc, if_neg]
      simp only [Bool.and_eq_true, decide_eq_true_eq, Option.any_eq_true]
      rintro ⟨⟨rfl, hopens⟩, d, hhead, hd⟩
      obtain ⟨rest, rfl⟩ := List.head?_eq_some_iff.mp hhead
      exact h ⟨rfl, hopens, d, rest, rfl, hd⟩

theorem fieldDotOf_zero :
    FieldDotOf before s 0 ↔ Drops (openQuote before) before.getLast? s := by
  constructor
  · rintro ⟨u, v, rfl, hlength, hdot⟩
    obtain rfl := List.length_eq_zero_iff.mp hlength
    obtain ⟨hquote, hopens, d, hhead, hd⟩ := hdot
    rw [List.append_nil] at hquote hopens
    obtain ⟨rest, rfl⟩ := List.head?_eq_some_iff.mp hhead
    exact ⟨hquote, opensField_iff.mpr hopens, d, rest, rfl, hd⟩
  · rintro ⟨hquote, hopens, d, rest, rfl, hd⟩
    refine ⟨[], d :: rest, rfl, rfl, ?_⟩
    rw [List.append_nil]
    exact ⟨hquote, opensField_iff.mp hopens, d, rfl, hd⟩

/-- Stripping goes through a span with the quote that is open and the last character read. -/
theorem stripFieldDots_eq (before s : List Char) :
    stripFieldDots (openQuote before) before.getLast? s = deleting (FieldDotOf before s) s := by
  induction s generalizing before with
  | nil => rfl
  | cons c s ih =>
    have hnext := ih (before ++ [c])
    rw [openQuote_concat, List.getLast?_concat] at hnext
    rw [deleting_cons, deleting_congr fun i _ => fieldDotOf_succ i, ← hnext]
    by_cases h : Drops (openQuote before) before.getLast? (c :: s)
    · rw [if_pos (fieldDotOf_zero.mpr h), stripFieldDots_drop h, List.tail_cons]
      obtain ⟨hquote, -, d, rest, hs, -⟩ := h
      rw [hquote, (List.cons.inj hs).1]
      rfl
    · rw [if_neg fun hdot => h (fieldDotOf_zero.mp hdot), stripFieldDots_keep h]

/-! ## Spans -/

/-- Behind `before` two braces open a span that is closed, and `inside` is what stands in it. -/
inductive Span : (before inside : List Char) → Prop where
  | first {before inside : List Char} (hopening : NoEarlier outputOpening before)
      (hclosing : NoEarlier outputClosing inside) : Span before inside
  | later {earlier other before inside : List Char} (hopening : NoEarlier outputOpening earlier)
      (hclosing : NoEarlier outputClosing other) (hspan : Span before inside) :
      Span (earlier ++ (outputOpening ++ (other ++ (outputClosing ++ before)))) inside

/-- A text with a span in it. -/
def spanned (before inside after : List Char) : List Char :=
  before ++ (outputOpening ++ (inside ++ (outputClosing ++ after)))

/-- The character at a position is a dot in a closed span that belongs to the name of a field. -/
def FieldDotAt (text : List Char) (i : ℕ) : Prop :=
  ∃ before u v after, text = spanned before (u ++ '.' :: v) after ∧ Span before (u ++ '.' :: v) ∧
    NamesField u v ∧ i = (before ++ (outputOpening ++ u)).length

theorem length_spanned (before inside after : List Char) :
    (spanned before inside after).length = before.length + inside.length + after.length + 4 := by
  simp only [spanned, outputOpening, outputClosing, List.length_append, List.length_cons,
    List.length_nil]
  omega

/-- A later span of a text is one of what follows the first. -/
theorem spanned_later (earlier other before inside after : List Char) :
    spanned (earlier ++ (outputOpening ++ (other ++ (outputClosing ++ before)))) inside after =
      spanned earlier other (spanned before inside after) := by
  simp only [spanned, List.append_assoc]

/-! ## Reading from left to right -/

/-- A text has a first span, or none at all. -/
theorem first_span (text : List Char) :
    (∃ before inside after, NoEarlier outputOpening before ∧ NoEarlier outputClosing inside ∧
      text = spanned before inside after) ∨
    ∀ before inside after, Span before inside → text ≠ spanned before inside after := by
  by_cases h : ∃ before inside after, NoEarlier outputOpening before ∧
    NoEarlier outputClosing inside ∧ text = spanned before inside after
  · exact .inl h
  · refine .inr ?_
    rintro before inside after (⟨ho, hc⟩ | ⟨ho, hc, -⟩) rfl
    · exact h ⟨_, _, _, ho, hc, rfl⟩
    · exact h ⟨_, _, _, ho, hc, spanned_later ..⟩

theorem normalizeWith_enough {n m : ℕ} (hn : text.length < n) (hm : text.length < m) :
    normalizeWith n text = normalizeWith m text := by
  induction n generalizing m text with
  | zero => exact absurd hn (Nat.not_lt_zero _)
  | succ n ih =>
    cases m with
    | zero => exact absurd hm (Nat.not_lt_zero _)
    | succ m =>
      rw [normalizeWith, normalizeWith]
      cases ho : Text.splitAt? outputOpening text with
      | none => rfl
      | some opened =>
        obtain ⟨before, rest⟩ := opened
        cases hc : Text.splitAt? outputClosing rest with
        | none => simp only [hc]
        | some closed =>
          obtain ⟨inside, after⟩ := closed
          obtain ⟨rfl, -⟩ := (Text.splitAt?_eq_some_iff (by decide)).mp ho
          obtain ⟨rfl, -⟩ := (Text.splitAt?_eq_some_iff (by decide)).mp hc
          have hlength := length_spanned before inside after
          rw [spanned] at hlength
          simp only [hc, ih (show after.length < n by omega) (show after.length < m by omega)]

theorem normalize_spanned (ho : NoEarlier outputOpening before)
    (hc : NoEarlier outputClosing inside) (after : List Char) :
    normalize (spanned before inside after) =
      spanned before (stripFieldDots none none inside) (normalize after) := by
  have hopening : Text.splitAt? outputOpening (spanned before inside after) =
      some (before, inside ++ (outputClosing ++ after)) :=
    (Text.splitAt?_eq_some_iff (by decide)).mpr ⟨rfl, ho⟩
  have hclosing : Text.splitAt? outputClosing (inside ++ (outputClosing ++ after)) =
      some (inside, after) := (Text.splitAt?_eq_some_iff (by decide)).mpr ⟨rfl, hc⟩
  have hlength := length_spanned before inside after
  rw [normalize, normalizeWith, hopening]
  simp only [hclosing]
  rw [normalizeWith_enough (show after.length < _ by omega) (Nat.lt_succ_self _)]
  rfl

/-- Braces that are not closed are left alone, with all that follows. -/
theorem normalize_plain
    (h : ∀ before inside after, Span before inside → text ≠ spanned before inside after) :
    normalize text = text := by
  rw [normalize, normalizeWith]
  split
  · rfl
  · rename_i before rest ho
    obtain ⟨rfl, hopening⟩ := (Text.splitAt?_eq_some_iff (by decide)).mp ho
    split
    · rfl
    · rename_i inside after hc
      obtain ⟨rfl, hclosing⟩ := (Text.splitAt?_eq_some_iff (by decide)).mp hc
      exact absurd rfl (h before inside after (.first hopening hclosing))

/-- The spans of a text are its first one and those of what follows it. -/
theorem span_cases {b i a : List Char} (ho : NoEarlier outputOpening before)
    (hc : NoEarlier outputClosing inside) (h : Span b i)
    (htext : spanned before inside after = spanned b i a) :
    (b = before ∧ i = inside ∧ a = after) ∨
      ∃ between, Span between i ∧ after = spanned between i a ∧
        b = before ++ (outputOpening ++ (inside ++ (outputClosing ++ between))) := by
  cases h with
  | first ho' hc' =>
    obtain ⟨rfl, hrest⟩ := ho.unique (by decide) ho' htext
    obtain ⟨rfl, rfl⟩ := hc.unique (by decide) hc' hrest
    exact .inl ⟨rfl, rfl, rfl⟩
  | @later earlier other between _ ho' hc' hspan =>
    obtain ⟨rfl, hrest⟩ := ho.unique (by decide) ho' (htext.trans (spanned_later ..))
    obtain ⟨rfl, rfl⟩ := hc.unique (by decide) hc' hrest
    exact .inr ⟨between, hspan, rfl, rfl⟩

/-- The dots of fields in a text are those of its first span and those of what follows it. -/
theorem fieldDotAt_spanned (ho : NoEarlier outputOpening before)
    (hc : NoEarlier outputClosing inside) (after : List Char) (n : ℕ) :
    FieldDotAt (spanned before inside after) n ↔
      (∃ j, FieldDotOf [] inside j ∧ n = before.length + 2 + j) ∨
        ∃ j, FieldDotAt after j ∧ n = before.length + 2 + (inside.length + (2 + j)) := by
  constructor
  · rintro ⟨b, u, v, a, htext, hspan, hdot, rfl⟩
    obtain ⟨rfl, rfl, rfl⟩ | ⟨between, hlater, rfl, rfl⟩ := span_cases ho hc hspan htext
    · refine .inl ⟨u.length, ⟨u, v, rfl, rfl, hdot⟩, ?_⟩
      simp [outputOpening]
      omega
    · refine .inr ⟨_, ⟨between, u, v, a, rfl, hlater, hdot, rfl⟩, ?_⟩
      simp [outputOpening, outputClosing]
      omega
  · rintro (⟨j, ⟨u, v, rfl, rfl, hdot⟩, rfl⟩ | ⟨j, ⟨b, u, v, a, rfl, hspan, hdot, rfl⟩, rfl⟩)
    · refine ⟨before, u, v, after, rfl, .first ho hc, hdot, ?_⟩
      simp [outputOpening]
      omega
    · refine ⟨_, u, v, a, ?_, .later ho hc hspan, hdot, ?_⟩
      · exact (spanned_later ..).symm
      · simp [outputOpening, outputClosing]
        omega

/-- What is deleted from a text is what is deleted from its first span and from what follows. -/
theorem deleting_spanned (ho : NoEarlier outputOpening before)
    (hc : NoEarlier outputClosing inside) (after : List Char) :
    deleting (FieldDotAt (spanned before inside after)) (spanned before inside after) =
      spanned before (deleting (FieldDotOf [] inside) inside) (deleting (FieldDotAt after) after) := by
  have hdot := fieldDotAt_spanned ho hc after
  have hlt := fun n (h : FieldDotOf [] inside n) => h.lt
  generalize FieldDotAt (spanned before inside after) = dropped at hdot
  have hbefore : deleting dropped before = before := deleting_eq_self fun n hn => by
    rw [hdot]
    rintro (⟨j, -, rfl⟩ | ⟨j, -, rfl⟩) <;> omega
  have hopening : deleting (fun n => dropped (before.length + n)) outputOpening = outputOpening :=
    deleting_eq_self fun n (hn : n < 2) => by
      rw [hdot]
      rintro (⟨j, -, h⟩ | ⟨j, -, h⟩) <;> omega
  have hinside : deleting (fun n => dropped (before.length + (2 + n))) inside =
      deleting (FieldDotOf [] inside) inside := deleting_congr fun n hn => by
    rw [hdot]
    constructor
    · rintro (⟨j, hj, h⟩ | ⟨j, -, h⟩)
      · obtain rfl : n = j := by omega
        exact hj
      · omega
    · exact fun hn => .inl ⟨n, hn, by omega⟩
  have hclosing : deleting (fun n => dropped (before.length + (2 + (inside.length + n))))
      outputClosing = outputClosing := deleting_eq_self fun n (hn : n < 2) => by
    rw [hdot]
    rintro (⟨j, hj, h⟩ | ⟨j, -, h⟩)
    · have := hlt j hj
      omega
    · omega
  have hafter : deleting (fun n => dropped (before.length + (2 + (inside.length + (2 + n))))) after =
      deleting (FieldDotAt after) after := deleting_congr fun n _ => by
    rw [hdot]
    constructor
    · rintro (⟨j, hj, h⟩ | ⟨j, hj, h⟩)
      · have := hlt j hj
        omega
      · obtain rfl : n = j := by omega
        exact hj
    · exact fun hn => .inr ⟨n, hn, by omega⟩
  have htwo : outputOpening.length = 2 ∧ outputClosing.length = 2 := ⟨rfl, rfl⟩
  simp only [spanned, deleting_append, htwo.1, htwo.2, hbefore, hopening, hinside, hclosing, hafter]

/-! ## Normal texts -/

theorem normalize_eq_deleting (text : List Char) :
    normalize text = deleting (FieldDotAt text) text := by
  obtain ⟨before, inside, after, ho, hc, rfl⟩ | hplain := first_span text
  · have hshorter := length_spanned before inside after
    rw [normalize_spanned ho hc, deleting_spanned ho hc, normalize_eq_deleting after]
    exact congrArg (spanned before · _) (stripFieldDots_eq [] inside)
  · rw [normalize_plain hplain]
    refine (deleting_eq_self fun i _ => ?_).symm
    rintro ⟨before, u, v, after, htext, hspan, -⟩
    exact hplain _ _ _ hspan htext
termination_by text.length

theorem not_mark_of_isAlpha (hc : c.isAlpha = true) : c ≠ '.' ∧ c ≠ '"' ∧ c ≠ '\'' ∧ c ≠ '\x7d' := by
  refine ⟨?_, ?_, ?_, ?_⟩ <;> rintro rfl <;> revert hc <;> decide

theorem stripFieldDots_letter (hc : c.isAlpha = true) (previous : Option Char) (s : List Char) :
    stripFieldDots none previous (c :: s) = c :: stripFieldDots none (some c) s := by
  obtain ⟨hdot, hdouble, hsingle, -⟩ := not_mark_of_isAlpha hc
  simp [stripFieldDots, hdot, hdouble, hsingle]

/-- Only a dot that is dropped can bring another character to the front, a letter. -/
theorem head?_stripFieldDots (quote previous : Option Char) (s : List Char) :
    (stripFieldDots quote previous s).head? = s.head? ∨
      Drops quote previous s ∧
        ∃ d, (stripFieldDots quote previous s).head? = some d ∧ d.isAlpha = true := by
  cases s with
  | nil => exact .inl rfl
  | cons c s =>
    by_cases h : Drops quote previous (c :: s)
    · obtain ⟨rfl, hopens, d, rest, hs, hd⟩ := h
      obtain ⟨rfl, rfl⟩ := List.cons.inj hs
      refine .inr ⟨⟨rfl, hopens, d, rest, rfl, hd⟩, d, ?_, hd⟩
      rw [stripFieldDots_drop ⟨rfl, hopens, d, rest, rfl, hd⟩, List.tail_cons,
        stripFieldDots_letter hd, List.head?_cons]
    · rw [stripFieldDots_keep h]
      exact .inl rfl

theorem stripFieldDots_stripFieldDots (quote previous : Option Char) (s : List Char) :
    stripFieldDots quote previous (stripFieldDots quote previous s) =
      stripFieldDots quote previous s := by
  induction s generalizing quote previous with
  | nil => rfl
  | cons c s ih =>
    by_cases h : Drops quote previous (c :: s)
    · rw [stripFieldDots_drop h, List.tail_cons]
      obtain ⟨rfl, -, d, rest, hs, hd⟩ := h
      obtain ⟨rfl, rfl⟩ := List.cons.inj hs
      have hrest := ih none (some '.')
      rw [stripFieldDots_letter hd, stripFieldDots_letter hd] at hrest ⊢
      exact hrest
    · have hagain : ¬ Drops quote previous
          (c :: stripFieldDots (noteQuote quote c) (some c) s) := by
        rintro ⟨rfl, hopens, d, rest, hs, hd⟩
        obtain ⟨rfl, hrest⟩ := List.cons.inj hs
        obtain hhead | ⟨⟨-, hdot, -⟩, -⟩ := head?_stripFieldDots none (some '.') s
        · have hfirst : s.head? = some d := by rw [← hhead]; exact congrArg List.head? hrest
          obtain ⟨more, rfl⟩ := List.head?_eq_some_iff.mp hfirst
          exact h ⟨rfl, hopens, d, more, rfl, hd⟩
        · exact absurd hdot (by decide)
      rw [stripFieldDots_keep h, stripFieldDots_keep hagain, ih]

theorem closing_prefix_iff : outputClosing <+: c :: s ↔ c = '\x7d' ∧ s.head? = some '\x7d' := by
  cases s with
  | nil => simp [outputClosing]
  | cons d s => simp [outputClosing, eq_comm]

/-- No closing braces come about, since only letters move. -/
theorem noEarlier_stripFieldDots (quote previous : Option Char)
    (h : NoEarlier outputClosing s) : NoEarlier outputClosing (stripFieldDots quote previous s) := by
  induction s generalizing quote previous with
  | nil => exact h
  | cons c s ih =>
    obtain ⟨hfirst, hrest⟩ := Text.noEarlier_cons.mp h
    by_cases hd : Drops quote previous (c :: s)
    · rw [stripFieldDots_drop hd]
      exact ih _ _ hrest
    · rw [stripFieldDots_keep hd]
      refine Text.noEarlier_cons.mpr ⟨fun hclosing => hfirst ?_, ih _ _ hrest⟩
      obtain ⟨rfl, hnext⟩ := closing_prefix_iff.mp hclosing
      refine closing_prefix_iff.mpr ⟨rfl, ?_⟩
      rw [List.head?_append] at hnext ⊢
      obtain hhead | ⟨-, d, hhead, hd⟩ := head?_stripFieldDots (noteQuote quote '\x7d') (some '\x7d') s
      · rwa [← hhead]
      · rw [hhead] at hnext
        exact absurd (Option.some.inj hnext) (not_mark_of_isAlpha hd).2.2.2

theorem normalize_normalize (text : List Char) : normalize (normalize text) = normalize text := by
  obtain ⟨before, inside, after, ho, hc, rfl⟩ | hplain := first_span text
  · have hshorter := length_spanned before inside after
    rw [normalize_spanned ho hc, normalize_spanned ho (noEarlier_stripFieldDots none none hc),
      stripFieldDots_stripFieldDots, normalize_normalize after]
  · rw [normalize_plain hplain, normalize_plain hplain]
termination_by text.length

/-! ## Normalization -/

theorem FieldDotAt.is_dot {i : ℕ} (h : FieldDotAt text i) : text[i]? = some '.' := by
  obtain ⟨before, u, v, after, rfl, -, -, rfl⟩ := h
  have hsplit : spanned before (u ++ '.' :: v) after =
      (before ++ (outputOpening ++ u)) ++ '.' :: (v ++ (outputClosing ++ after)) := by
    simp only [spanned, List.append_assoc, List.cons_append]
  rw [hsplit, List.getElem?_append_right (Nat.le_refl _), Nat.sub_self]
  rfl

/-- Normalizing a template deletes the dots that belong to names of fields in its closed spans, and
nothing else, and does so once for all. -/
theorem normalize_deletes_field_dots (text : List Char) :
    normalize text = deleting (FieldDotAt text) text ∧
      (∀ i, FieldDotAt text i → text[i]? = some '.') ∧
      normalize (normalize text) = normalize text :=
  ⟨normalize_eq_deleting text, fun _ h => h.is_dot, normalize_normalize text⟩

end Template

end ClusterConfig
