import ClusterConfig.Proofs.Yaml.CutComments
import ClusterConfig.Proofs.Yaml.Scanning

/-!
# Readers that stop at the end of a word

Names, addresses, tags and directives are read up to a character that does not belong to them. What
is found depends on the characters that are read and on the word behind them, but not on what follows
that word.
-/

set_option autoImplicit false

namespace ClusterConfig.Yaml

variable {α : Type} {c d : Cursor} {a : α} {r s x : List Char}

/-- Reading `x` and finding `a`: whenever `x` stands at a place before the same word, a reader comes
to the place behind it with the same result. -/
def Finds (read : Cursor → Option (α × Cursor)) (c : Cursor) (a : α) (d : Cursor)
    (x : List Char) : Prop :=
  ∀ r index, firstWord r = firstWord d.rest →
    read ⟨x ++ r, index, c.line, c.column⟩ = some (a, ⟨r, index + x.length, d.line, d.column⟩)

/-- A reader takes some characters of a kind within a line, and looks no further than the word goes
that follows them. -/
def Takes (P : Char → Prop) (read : Cursor → Option (α × Cursor)) (c : Cursor) (a : α)
    (d : Cursor) : Prop :=
  ∃ x, c.rest = x ++ d.rest ∧ (∀ e ∈ x, P e) ∧ d.line = c.line ∧ Finds read c a d x

/-- A reader takes a part of a word. -/
abbrev TakesWord (read : Cursor → Option (α × Cursor)) : Cursor → α → Cursor → Prop :=
  Takes (fun e => isSpaceOrBreak e = false) read

theorem Takes.bind {P : Char → Prop} {β : Type} {f : Cursor → Option (α × Cursor)}
    {g : α → Cursor → Option (β × Cursor)} {b : β} {e : Cursor} (hf : Takes P f c a d)
    (hg : Takes P (g a) d b e) :
    Takes P (fun c => (f c).bind fun found => g found.1 found.2) c b e := by
  obtain ⟨x, hx, hxw, hxl, hfinds⟩ := hf
  obtain ⟨y, hy, hyw, hyl, hgfinds⟩ := hg
  refine ⟨x ++ y, by rw [hx, hy, List.append_assoc], ?_, hyl.trans hxl, fun r index hr => ?_⟩
  · simpa [or_imp, forall_and] using ⟨hxw, hyw⟩
  · have hword : firstWord (y ++ r) = firstWord d.rest := hy ▸ firstWord_append hr y
    simp only [List.append_assoc, hfinds (y ++ r) index hword, Option.bind_some,
      hgfinds r _ hr, List.length_append, Nat.add_assoc]

theorem Takes.map {P : Char → Prop} {β : Type} {f : Cursor → Option (α × Cursor)} (g : α → β)
    (hf : Takes P f c a d) :
    Takes P (fun c => (f c).map fun found => (g found.1, found.2)) c (g a) d := by
  obtain ⟨x, hx, hxw, hxl, hfinds⟩ := hf
  exact ⟨x, hx, hxw, hxl, fun r index hr => by simp only [hfinds r index hr, Option.map_some]⟩

/-- Characters that are known to stand there are passed before reading. -/
theorem Takes.behind {P : Char → Prop} {f : Cursor → Option (α × Cursor)} {rest : List Char}
    (hx : ∀ e ∈ x, P e) (hc : c.rest = x ++ rest)
    (hf : Takes P f (c.advance x.length) a d) :
    Takes P (fun c => f (c.advance x.length)) c a d := by
  obtain ⟨y, hy, hyw, hyl, hfinds⟩ := hf
  simp only [Cursor.advance, hc, List.drop_left] at hy
  refine ⟨x ++ y, by rw [hc, hy, List.append_assoc], ?_, hyl, fun r index hr => ?_⟩
  · simpa [or_imp, forall_and] using ⟨hx, hyw⟩
  · have hread := hfinds r (index + x.length) hr
    simp only [Cursor.advance, List.append_assoc, List.drop_left] at hread ⊢
    rw [hread, List.length_append, Nat.add_assoc]

/-- A mark is passed where it stands. -/
theorem Takes.expect {P : Char → Prop} {f : Cursor → Option (α × Cursor)} {mark : Char}
    (hm : P mark) (hc : c.rest.head? = some mark) (hf : Takes P f (c.advance 1) a d) :
    Takes P (fun c => if c.rest.head? = some mark then f (c.advance 1) else none) c a d := by
  obtain ⟨rest, hrest⟩ := List.head?_eq_some_iff.mp hc
  obtain ⟨x, hx, hxw, hline, hfinds⟩ := hf
  simp only [Cursor.advance, hrest, List.drop_succ_cons, List.drop_zero] at hx
  refine ⟨mark :: x, by rw [hrest, hx, List.cons_append], ?_, hline, fun r index hr => ?_⟩
  · simpa using ⟨hm, hxw⟩
  · have hread := hfinds r (index + 1) hr
    simp only [Cursor.advance, List.cons_append, List.head?_cons, if_true, List.drop_succ_cons,
      List.drop_zero, List.length_cons] at hread ⊢
    rw [hread, Nat.add_assoc, Nat.add_comm 1]

/-- What a reader asks of the character it starts at holds of it wherever it stands. -/
theorem Takes.startsWith {P : Char → Prop} {f : Cursor → Option (α × Cursor)} {p : Char → Bool}
    (hc : c.startsWith p) (hlt : d.rest.length < c.rest.length) (hf : Takes P f c a d) :
    Takes P (fun c => if c.startsWith p then f c else none) c a d := by
  obtain ⟨x, hx, hxw, hline, hfinds⟩ := hf
  refine ⟨x, hx, hxw, hline, fun r index hr => ?_⟩
  cases x with
  | nil =>
    rw [hx, List.nil_append] at hlt
    exact absurd hlt (Nat.lt_irrefl _)
  | cons e x =>
    have hhead : Cursor.startsWith p ⟨e :: x ++ r, index, c.line, c.column⟩ = true := by
      simpa [Cursor.startsWith, hx] using hc
    simp only [hhead, if_true]
    exact hfinds r index hr

/-- A predicate of characters that no blank and no line break has. -/
def OfWords (p : Char → Bool) : Prop := ∀ c, p c → isSpaceOrBreak c = false

/-- It is enough to look at the blanks and line breaks there are. -/
theorem ofWords_of {p : Char → Bool}
    (h : ∀ c ∈ [' ', '\t', '\n', '\r', '\u0085', '\u2028', '\u2029'], p c = false) :
    OfWords p := by
  intro c hc
  by_contra hs
  have hmem : c ∈ [' ', '\t', '\n', '\r', '\u0085', '\u2028', '\u2029'] := by
    rw [Bool.not_eq_false] at hs
    simpa [isSpaceOrBreak, isSpaceOrTab, isLineBreak, isSeparator, or_assoc] using hs
  simp [h c hmem] at hc

theorem OfWords.of_space {p : Char → Bool} {c : Char} (hp : OfWords p) (hc : isSpaceOrBreak c = true) :
    p c = false := by
  cases h : p c with
  | false => rfl
  | true => simp [hp c h] at hc

theorem ofWords_isNameChar : OfWords isNameChar := ofWords_of (by simp [isNameChar])

theorem ofWords_isDigit : OfWords Char.isDigit := ofWords_of (by simp [Char.isDigit])

theorem head?_dropWhile_all (p : Char → Bool) (s : List Char) :
    (s.dropWhile p).head?.all (!p ·) = true := by
  have hstop := List.head?_dropWhile_not p s
  cases h : (s.dropWhile p).head? with
  | none => rfl
  | some e => simpa [h] using hstop

/-- The characters a predicate takes from the start of a text are taken again before the same
word. -/
theorem takeWhile_again {p : Char → Bool} (hp : OfWords p)
    (h : firstWord r = firstWord (s.drop (s.takeWhile p).length)) :
    (s.takeWhile p ++ r).takeWhile p = s.takeWhile p := by
  apply takeWhile_append_stop
  · exact fun c hc => List.mem_takeWhile_imp hc
  · intro c hc
    have hany := head?_any_congr hp h
    have hstop := List.head?_dropWhile_not p s
    rw [Spot.drop_length_takeWhile] at hany
    rw [Option.mem_def.mp hc] at hany
    cases hd : (s.dropWhile p).head? with
    | none => simpa [hd] using hany
    | some e =>
      rw [hd] at hany hstop
      simpa [hstop] using hany

/-! ## Names -/

theorem endsAnchor_congr (h : firstWord r = firstWord s) : endsAnchor r = endsAnchor s := by
  let mark (c : Char) : Bool :=
    c = '?' || c = ':' || c = ',' || c = ']' || c = '}' || c = '%' || c = '@' || c = '\x60'
  have heq (s : List Char) : endsAnchor s = (endsWord s || s.head?.any mark) := by
    cases s with
    | nil => rfl
    | cons c s => simp [endsAnchor, endsWord, mark, Bool.or_assoc]
  have hmark : OfWords mark := ofWords_of (by simp [mark])
  rw [heq, heq, endsWord_congr h, head?_any_congr hmark h]

theorem takesWord_readAnchor (hc : ∀ e ∈ c.rest.head?, isSpaceOrBreak e = false)
    {name : List Char} (h : readAnchor c = some (name, d)) : TakesWord readAnchor c name d := by
  obtain ⟨text, index, line, column⟩ := c
  simp only [readAnchor, Option.ite_none_left_eq_some] at h
  obtain ⟨hend, h⟩ := h
  simp only [Cursor.advance] at hend h
  obtain ⟨rfl, rfl⟩ := Prod.mk.inj (Option.some.inj h)
  cases text with
  | nil => simp at hend
  | cons e s =>
    simp only [List.drop_succ_cons, List.drop_zero] at hend ⊢
    refine ⟨e :: s.takeWhile isNameChar, by simp [Spot.drop_length_takeWhile], ?_, rfl, ?_⟩
    · intro b hb
      cases hb with
      | head => exact hc e rfl
      | tail _ hb => exact ofWords_isNameChar b (List.mem_takeWhile_imp hb)
    · intro r index' hr
      have htake := takeWhile_again ofWords_isNameChar hr
      rw [← endsAnchor_congr hr] at hend
      simp only [readAnchor, Cursor.advance, List.cons_append, List.drop_succ_cons, List.drop_zero,
        htake, List.drop_left, List.length_cons]
      rw [if_neg hend]
      simp [Nat.add_comm, Nat.add_left_comm]

/-! ## Addresses -/

theorem escapedByte?_eq_some {byte : Nat} {rest : List Char}
    (h : escapedByte? s = some (byte, rest)) :
    ∃ x, s = x ++ rest ∧ x.length = 3 ∧ (∀ e ∈ x, isSpaceOrBreak e = false) ∧
      ∀ r, escapedByte? (x ++ r) = some (byte, r) := by
  have hhex : OfWords fun c => (Json.hexValue? c).isSome :=
    ofWords_of (by simp [Json.hexValue?])
  unfold escapedByte? at h
  split at h
  · rename_i a b rest'
    simp only [Option.bind_eq_bind, Option.bind_eq_some_iff] at h
    obtain ⟨high, hhigh, low, hlow, h⟩ := h
    obtain ⟨rfl, rfl⟩ := Prod.mk.inj (Option.some.inj h)
    refine ⟨['%', a, b], rfl, rfl, ?_, ?_⟩
    · have ha := hhex a (by simp [hhigh])
      have hb := hhex b (by simp [hlow])
      simp only [List.forall_mem_cons]
      exact ⟨by decide, ha, hb, by simp⟩
    · intro r
      simp [escapedByte?, hhigh, hlow]
  · cases h

theorem escapedTail_eq_some {n acc value : Nat} {rest : List Char}
    (h : escapedTail n acc s = some (value, rest)) :
    ∃ x, s = x ++ rest ∧ x.length = 3 * n ∧ (∀ e ∈ x, isSpaceOrBreak e = false) ∧
      ∀ r, escapedTail n acc (x ++ r) = some (value, r) := by
  induction n generalizing acc s with
  | zero =>
    obtain ⟨rfl, rfl⟩ := Prod.mk.inj (Option.some.inj h)
    exact ⟨[], rfl, rfl, by simp, fun r => rfl⟩
  | succ n ih =>
    rw [escapedTail] at h
    simp only [Option.bind_eq_bind, Option.bind_eq_some_iff] at h
    obtain ⟨⟨byte, more⟩, hbyte, h⟩ := h
    obtain ⟨x, rfl, hx, hxw, hxr⟩ := escapedByte?_eq_some hbyte
    split at h
    · cases h
    · rename_i hlead
      obtain ⟨y, rfl, hy, hyw, hyr⟩ := ih h
      refine ⟨x ++ y, by simp, ?_, ?_, ?_⟩
      · rw [List.length_append]
        omega
      · simpa [or_imp, forall_and] using ⟨hxw, hyw⟩
      · intro r
        simp [escapedTail, hxr, hyr, hlead]

/-- How many bytes follow a first byte, and what it holds of the number of the character. -/
def escapedLead? (byte : Nat) : Option (Nat × Nat) :=
  if byte < 128 then some (0, byte)
  else if byte / 32 = 6 then some (1, byte % 32)
  else if byte / 16 = 14 then some (2, byte % 16)
  else if byte / 8 = 30 then some (3, byte % 8)
  else none

theorem escapedChar?_eq (s : List Char) :
    escapedChar? s = (escapedByte? s).bind fun first => (escapedLead? first.1).bind fun lead =>
      (escapedTail lead.1 lead.2 first.2).map fun last => (Char.ofNat last.1, 3 * (lead.1 + 1)) := by
  rw [escapedChar?]
  congr 1
  funext first
  simp only [escapedLead?]
  split_ifs <;> simp only [Option.bind_eq_bind, Option.bind_some, Option.bind_none] <;>
    rw [Option.map_eq_bind] <;> rfl

theorem escapedChar?_eq_some {e : Char} {n : Nat} (h : escapedChar? s = some (e, n)) :
    ∃ x rest, s = x ++ rest ∧ x.length = n ∧ 0 < n ∧ (∀ b ∈ x, isSpaceOrBreak b = false) ∧
      ∀ r, escapedChar? (x ++ r) = some (e, n) := by
  rw [escapedChar?_eq] at h
  simp only [Option.bind_eq_some_iff, Option.map_eq_some_iff] at h
  obtain ⟨⟨byte, more⟩, hbyte, ⟨tail, start⟩, hlead, ⟨value, rest⟩, htail, h⟩ := h
  obtain ⟨rfl, rfl⟩ := Prod.mk.inj h
  obtain ⟨x, rfl, hx, hxw, hxr⟩ := escapedByte?_eq_some hbyte
  obtain ⟨y, rfl, hy, hyw, hyr⟩ := escapedTail_eq_some htail
  refine ⟨x ++ y, rest, by simp, ?_, by omega, ?_, ?_⟩
  · rw [List.length_append]
    omega
  · simpa [or_imp, forall_and] using ⟨hxw, hyw⟩
  · intro r
    simp only [escapedChar?_eq, List.append_assoc, hxr, hyr, Option.bind_some, hlead,
      Option.map_some]

/-- The characters that an address goes on with. -/
def continuesUri (whole : Bool) (c : Char) : Bool :=
  c = '%' || isUriChar c || (whole && isAddressChar c)

theorem ofWords_continuesUri (whole : Bool) : OfWords (continuesUri whole) := by
  apply ofWords_of
  cases whole <;> simp [continuesUri, isUriChar, isNameChar, isAddressChar]

theorem readUri_stop {whole : Bool} (hc : c.rest.head?.any (continuesUri whole) = false)
    (fuel : Nat) : readUri whole (fuel + 1) c = some ([], c) := by
  obtain ⟨text, index, line, column⟩ := c
  cases text with
  | nil => rfl
  | cons e s =>
    simp only [List.head?_cons, Option.any_some, continuesUri, Bool.or_eq_false_iff,
      decide_eq_false_iff_not] at hc
    obtain ⟨⟨hpercent, huri⟩, haddress⟩ := hc
    rw [readUri]
    · simp [huri, haddress]

theorem readUri_escaped {whole : Bool} {b : Char} {n : Nat} (h : escapedChar? c.rest = some (b, n))
    (fuel : Nat) :
    readUri whole (fuel + 1) c =
      (readUri whole fuel (c.advance n)).map fun found => (b :: found.1, found.2) := by
  obtain ⟨text, index, line, column⟩ := c
  have hpercent : ∃ s, text = '%' :: s := by
    rw [escapedChar?_eq] at h
    obtain ⟨first, hfirst, -⟩ := Option.bind_eq_some_iff.mp h
    unfold escapedByte? at hfirst
    split at hfirst
    · rename_i heq
      exact ⟨_, heq⟩
    · cases hfirst
  obtain ⟨s, rfl⟩ := hpercent
  rw [readUri]
  simp only [h, Option.bind_eq_bind, Option.bind_some]
  rw [Option.map_eq_bind]
  rfl

theorem readUri_char {whole : Bool} {e : Char} (he : e ≠ '%') (hc : continuesUri whole e = true)
    (fuel : Nat) (s : List Char) (index line column : Nat) :
    readUri whole (fuel + 1) ⟨e :: s, index, line, column⟩ =
      (readUri whole fuel ⟨s, index + 1, line, column + 1⟩).map fun found =>
        (e :: found.1, found.2) := by
  simp only [continuesUri, he, decide_false, Bool.false_or] at hc
  rw [readUri]
  simp only [hc, if_true]
  rw [Option.map_eq_bind]
  rfl

/-- An address is over, or it goes on with some characters that stand for one. -/
theorem readUri_succ {whole : Bool} {fuel : Nat} {uri : List Char}
    (h : readUri whole (fuel + 1) c = some (uri, d)) :
    (c.rest.head?.any (continuesUri whole) = false ∧ uri = [] ∧ d = c) ∨
      ∃ b y more rest, uri = b :: more ∧ c.rest = y ++ rest ∧ 0 < y.length ∧
        (∀ e ∈ y, isSpaceOrBreak e = false) ∧
        readUri whole fuel ⟨rest, c.index + y.length, c.line, c.column + y.length⟩ =
          some (more, d) ∧
        ∀ r index line column k, readUri whole (k + 1) ⟨y ++ r, index, line, column⟩ =
          (readUri whole k ⟨r, index + y.length, line, column + y.length⟩).map fun found =>
            (b :: found.1, found.2) := by
  obtain ⟨text, index, line, column⟩ := c
  by_cases hstop : text.head?.any (continuesUri whole) = false
  · rw [readUri_stop hstop] at h
    obtain ⟨rfl, rfl⟩ := Prod.mk.inj (Option.some.inj h)
    exact .inl ⟨hstop, rfl, rfl⟩
  · right
    cases text with
    | nil => simp at hstop
    | cons e s =>
      have hcont : continuesUri whole e = true := by simpa using hstop
      by_cases hpercent : e = '%'
      · subst hpercent
        cases hchar : escapedChar? ('%' :: s) with
        | none => simp [readUri, hchar] at h
        | some found =>
          obtain ⟨b, n⟩ := found
          rw [readUri_escaped hchar] at h
          obtain ⟨⟨more, d'⟩, hmore, heq⟩ := Option.map_eq_some_iff.mp h
          obtain ⟨rfl, rfl⟩ := Prod.mk.inj heq
          obtain ⟨y, rest, hsplit, rfl, hpos, hyw, hyr⟩ := escapedChar?_eq_some hchar
          refine ⟨b, y, more, rest, rfl, hsplit, hpos, hyw, ?_, fun r i l k fuel => ?_⟩
          · simpa [Cursor.advance, hsplit] using hmore
          · rw [readUri_escaped (hyr r)]
            simp [Cursor.advance]
      · rw [readUri_char hpercent hcont] at h
        obtain ⟨⟨more, d'⟩, hmore, heq⟩ := Option.map_eq_some_iff.mp h
        obtain ⟨rfl, rfl⟩ := Prod.mk.inj heq
        refine ⟨e, [e], more, s, rfl, rfl, by simp, ?_, hmore, fun r i l k fuel => ?_⟩
        · simpa using ofWords_continuesUri whole e hcont
        · exact readUri_char hpercent hcont fuel r i l k

theorem readUri_eq_some {whole : Bool} {fuel : Nat} {uri : List Char}
    (h : readUri whole fuel c = some (uri, d)) :
    ∃ x, c.rest = x ++ d.rest ∧ (∀ e ∈ x, isSpaceOrBreak e = false) ∧ d.line = c.line ∧
      ∀ r index fuel', x.length < fuel' → firstWord r = firstWord d.rest →
        readUri whole fuel' ⟨x ++ r, index, c.line, c.column⟩ =
          some (uri, ⟨r, index + x.length, d.line, d.column⟩) := by
  induction fuel generalizing c uri with
  | zero => cases h
  | succ fuel ih =>
    obtain ⟨hstop, rfl, rfl⟩ | ⟨b, y, more, rest, rfl, hrest, hpos, hyw, hmore, hagain⟩ :=
      readUri_succ h
    · refine ⟨[], rfl, by simp, rfl, fun r index fuel' hf hr => ?_⟩
      obtain ⟨n, rfl⟩ : ∃ n, fuel' = n + 1 := ⟨fuel' - 1, by simp at hf; omega⟩
      apply readUri_stop
      rw [← hstop]
      exact head?_any_congr (ofWords_continuesUri whole) hr
    · obtain ⟨x, hx, hxw, hline, hfinds⟩ := ih hmore
      refine ⟨y ++ x, ?_, ?_, hline, fun r index fuel' hf hr => ?_⟩
      · rw [hrest, List.append_assoc]
        exact congrArg _ hx
      · simpa [or_imp, forall_and] using ⟨hyw, hxw⟩
      · rw [List.length_append] at hf
        obtain ⟨k, rfl⟩ : ∃ k, fuel' = k + 1 := ⟨fuel' - 1, by omega⟩
        rw [List.append_assoc, hagain, hfinds r _ k (by omega) hr]
        simp [Nat.add_assoc]

theorem takesWord_readUri {whole : Bool} {uri : List Char}
    (h : readUri whole (c.rest.length + 1) c = some (uri, d)) :
    TakesWord (fun c => readUri whole (c.rest.length + 1) c) c uri d := by
  obtain ⟨x, hx, hxw, hline, hfinds⟩ := readUri_eq_some h
  refine ⟨x, hx, hxw, hline, fun r index hr => hfinds r index _ ?_ hr⟩
  simp only [List.length_append]
  omega

theorem takesWord_readAddress {whole : Bool} {uri : List Char}
    (h : readAddress whole c = some (uri, d)) : TakesWord (readAddress whole) c uri d := by
  simp only [readAddress, Option.bind_eq_bind, Option.bind_eq_some_iff,
    Option.ite_none_left_eq_some] at h
  obtain ⟨⟨uri', d'⟩, huri, hne, h⟩ := h
  obtain ⟨rfl, rfl⟩ := Prod.mk.inj (Option.some.inj h)
  obtain ⟨x, hx, hxw, hline, hfinds⟩ := takesWord_readUri huri
  refine ⟨x, hx, hxw, hline, fun r index hr => ?_⟩
  have hread : readUri whole ((x ++ r).length + 1) ⟨x ++ r, index, c.line, c.column⟩ = _ :=
    hfinds r index hr
  simp only [readAddress, Option.bind_eq_bind]
  rw [hread, Option.bind_some, if_neg hne]

/-- An address is not empty. -/
theorem length_readAddress {whole : Bool} {uri : List Char}
    (h : readAddress whole c = some (uri, d)) : d.rest.length < c.rest.length := by
  simp only [readAddress, Option.bind_eq_bind, Option.bind_eq_some_iff,
    Option.ite_none_left_eq_some] at h
  obtain ⟨⟨uri', d'⟩, huri, hne, h⟩ := h
  obtain ⟨rfl, rfl⟩ := Prod.mk.inj (Option.some.inj h)
  obtain ⟨-, rfl, -⟩ | ⟨b, y, more, rest, -, hrest, hpos, -, hmore, -⟩ := readUri_succ huri
  · exact absurd rfl hne
  · obtain ⟨x, hx, -⟩ := readUri_eq_some hmore
    have hlen := congrArg List.length hx
    simp only [hrest, List.length_append] at hlen ⊢
    omega

/-! ## Tags -/

theorem handleText_double {name : List Char} (hn : ∀ e ∈ name, isNameChar e)
    (index line column : Nat) :
    handleText ⟨'!' :: (name ++ '!' :: r), index, line, column⟩ =
      ('!' :: (name ++ ['!']),
        ⟨r, index + (name.length + 2), line, column + (name.length + 2)⟩) := by
  have htake : (name ++ '!' :: r).takeWhile isNameChar = name := by
    apply takeWhile_append_stop hn
    simp [isNameChar]
  simp only [handleText, htake, List.drop_left, Cursor.advance, List.drop_succ_cons]
  simp

theorem handleText_single {name : List Char} (hn : ∀ e ∈ name, isNameChar e)
    (hr : r.head?.any (fun e => isNameChar e || e = '!') = false) (index line column : Nat) :
    handleText ⟨'!' :: (name ++ r), index, line, column⟩ =
      ('!' :: name, ⟨r, index + (name.length + 1), line, column + (name.length + 1)⟩) := by
  have htake : (name ++ r).takeWhile isNameChar = name := by
    apply takeWhile_append_stop hn
    intro e he
    rw [Option.mem_def.mp he] at hr
    exact (Bool.or_eq_false_iff.mp hr).1
  simp only [handleText, htake, List.drop_left, Cursor.advance, List.drop_succ_cons]
  split
  · simp at hr
  · rfl

theorem handleText_none (hr : r.head?.any (· = '!') = false) (index line column : Nat) :
    handleText ⟨r, index, line, column⟩ = ([], ⟨r, index, line, column⟩) := by
  rw [handleText]
  split
  · rename_i heq
    obtain rfl : r = _ := heq
    simp at hr
  · rfl

/-- There is no mark, or a name behind it, and a second mark behind that or not. -/
theorem handleText_cases (s : List Char) :
    s.head?.any (· = '!') = false ∨ ∃ name rest, (∀ e ∈ name, isNameChar e) ∧
      (s = '!' :: (name ++ '!' :: rest) ∨
        (s = '!' :: (name ++ rest) ∧ rest.head?.any (fun e => isNameChar e || e = '!') = false)) := by
  cases hc : s.head?.any (· = '!') with
  | false => exact .inl rfl
  | true =>
    obtain ⟨s, rfl⟩ : ∃ q, s = '!' :: q := by
      cases s with
      | nil => simp at hc
      | cons e s => exact ⟨s, by simpa using hc⟩
    have hsplit := (List.takeWhile_append_dropWhile (p := isNameChar) (l := s)).symm
    have hstop := List.head?_dropWhile_not isNameChar s
    refine .inr ⟨s.takeWhile isNameChar, ?_⟩
    have hname : ∀ e ∈ s.takeWhile isNameChar, isNameChar e := fun e he => List.mem_takeWhile_imp he
    match hrest : s.dropWhile isNameChar with
    | [] =>
      rw [hrest] at hsplit
      exact ⟨[], hname, .inr ⟨congrArg _ hsplit, rfl⟩⟩
    | e :: q =>
      rw [hrest] at hsplit hstop
      by_cases he : e = '!'
      · subst he
        exact ⟨q, hname, .inl (congrArg _ hsplit)⟩
      · exact ⟨e :: q, hname, .inr ⟨congrArg _ hsplit, by simpa [he] using hstop⟩⟩

theorem takesWord_handleText (c : Cursor) :
    TakesWord (fun c => some (handleText c)) c (handleText c).1 (handleText c).2 := by
  have hbang : OfWords (fun e => e = '!') := ofWords_of (by simp)
  have hgoes : OfWords (fun e => isNameChar e || e = '!') := ofWords_of (by simp [isNameChar])
  have hword {name : List Char} (hn : ∀ e ∈ name, isNameChar e) :
      ∀ e ∈ '!' :: name, isSpaceOrBreak e = false := by
    simpa using ⟨by decide, fun e he => ofWords_isNameChar e (hn e he)⟩
  obtain ⟨text, index, line, column⟩ := c
  obtain hc | ⟨name, rest, hn, rfl | ⟨rfl, hend⟩⟩ := handleText_cases text
  · rw [handleText_none hc]
    refine ⟨[], rfl, by simp, rfl, fun r i hr => congrArg some (handleText_none ?_ i line column)⟩
    rw [← hc]
    exact head?_any_congr hbang hr
  · rw [handleText_double hn]
    refine ⟨'!' :: (name ++ ['!']), by simp, ?_, rfl, fun r i hr => ?_⟩
    · rw [← List.cons_append, List.forall_mem_append]
      exact ⟨hword hn, hword (by simp)⟩
    · simpa using handleText_double hn i line column
  · rw [handleText_single hn hend]
    refine ⟨'!' :: name, rfl, hword hn, rfl,
      fun r i hr => congrArg some (handleText_single hn ?_ i line column)⟩
    rw [← hend]
    exact head?_any_congr hgoes hr

theorem length_handleText (h : (handleText c).1 ≠ []) :
    (handleText c).2.rest.length < c.rest.length := by
  obtain ⟨text, index, line, column⟩ := c
  obtain hc | ⟨name, rest, hn, rfl | ⟨rfl, hend⟩⟩ := handleText_cases text
  · rw [handleText_none hc] at h
    exact absurd rfl h
  · rw [handleText_double hn]
    simp only [List.length_cons, List.length_append]
    omega
  · rw [handleText_single hn hend]
    simp only [List.length_cons, List.length_append]
    omega

/-- A word that starts with two characters starts a text with them. -/
theorem starts_of_firstWord {a b : Char} {w : List Char} (h : firstWord s = a :: b :: w) :
    ∃ q, s = a :: b :: q := by
  cases s with
  | nil => simp at h
  | cons e s =>
    cases he : isSpaceOrBreak e with
    | true => simp [firstWord_cons, he] at h
    | false =>
      cases s with
      | nil => simp [firstWord_cons, he] at h
      | cons f s =>
        cases hf : isSpaceOrBreak f with
        | true => simp [firstWord_cons, he, hf] at h
        | false =>
          simp only [firstWord_cons, he, hf, Bool.false_eq_true, if_false, List.cons.injEq] at h
          exact ⟨s, by rw [h.1, h.2.1]⟩

/-- A tag in angle brackets. -/
def readVerbatim (c : Cursor) : Option (Token × Cursor) :=
  (readAddress true (c.advance 2)).bind fun found =>
    if found.2.rest.head? = some '>' then some (.tag [] found.1, found.2.advance 1) else none

/-- A tag behind its handle. -/
def readSuffix (handle : List Char) (c : Cursor) : Option (Token × Cursor) :=
  if 1 < handle.length && handle.getLast? = some '!' then
    (readAddress false c).map fun found => (.tag handle found.1, found.2)
  else
    (readUri false (c.rest.length + 1) c).map fun found =>
      (if (handle.drop 1 ++ found.1).isEmpty then .tag [] ['!']
        else .tag ['!'] (handle.drop 1 ++ found.1), found.2)

def readTagToken (c : Cursor) : Option (Token × Cursor) :=
  (readTagName c).map fun found => (.tag found.1 found.2.1, found.2.2)

theorem readTagName_verbatim {rest : List Char} (hc : c.rest = '!' :: '<' :: rest) :
    readTagToken c = readVerbatim c := by
  simp only [readTagToken, readTagName, hc, readVerbatim, Option.bind_eq_bind, Option.map_bind]
  congr 1
  funext found
  obtain ⟨uri, q, index, line, column⟩ := found
  cases q with
  | nil => rfl
  | cons e q => by_cases he : e = '>' <;> simp [he]

theorem readTagName_handle (hc : ∀ rest, c.rest ≠ '!' :: '<' :: rest) :
    readTagToken c = readSuffix (handleText c).1 (handleText c).2 := by
  rw [readTagToken, readTagName]
  split
  · rename_i rest heq
    exact absurd heq (hc rest)
  · cases handleText c with
    | mk handle d =>
      simp only [readSuffix, Option.map_eq_bind]
      split
      · simp only [Option.bind_eq_bind, Option.bind_assoc]
        rfl
      · simp only [Option.bind_eq_bind, Option.bind_assoc]
        congr 1
        funext found
        split <;> rename_i hempty <;> simpa using hempty

theorem takesWord_readVerbatim {rest : List Char} (hc : c.rest = '!' :: '<' :: rest)
    {token : Token} (h : readVerbatim c = some (token, d)) :
    TakesWord readVerbatim c token d := by
  obtain ⟨⟨uri, d'⟩, huri, hclose⟩ := Option.bind_eq_some_iff.mp h
  rw [Option.ite_none_right_eq_some] at hclose
  obtain ⟨hmark, heq⟩ := hclose
  obtain ⟨rfl, rfl⟩ := Prod.mk.inj (Option.some.inj heq)
  have hclosed := Takes.expect (P := fun e => isSpaceOrBreak e = false)
    (f := fun d => some (Token.tag [] uri, d)) (by decide) hmark
    ⟨[], rfl, by simp, rfl, fun _ _ _ => rfl⟩
  have hword : ∀ e ∈ ['!', '<'], isSpaceOrBreak e = false := by simp; decide
  have hread := (takesWord_readAddress huri).bind (g := fun uri d =>
    if d.rest.head? = some '>' then some (Token.tag [] uri, d.advance 1) else none) hclosed
  exact Takes.behind (x := ['!', '<']) hword hc hread

theorem takesWord_readSuffix {handle : List Char} {token : Token}
    (h : readSuffix handle c = some (token, d)) : TakesWord (readSuffix handle) c token d := by
  by_cases hhandle : (1 < handle.length && handle.getLast? = some '!') = true
  · have hread : readSuffix handle = fun c =>
        (readAddress false c).map fun found => (Token.tag handle found.1, found.2) := by
      funext c
      rw [readSuffix, if_pos hhandle]
    rw [hread] at h ⊢
    obtain ⟨⟨uri, d'⟩, huri, heq⟩ := Option.map_eq_some_iff.mp h
    obtain ⟨rfl, rfl⟩ := Prod.mk.inj heq
    exact (takesWord_readAddress huri).map (Token.tag handle)
  · have hread : readSuffix handle = fun c => (readUri false (c.rest.length + 1) c).map
        fun found => (if (handle.drop 1 ++ found.1).isEmpty then Token.tag [] ['!']
          else .tag ['!'] (handle.drop 1 ++ found.1), found.2) := by
      funext c
      rw [readSuffix, if_neg hhandle]
    rw [hread] at h ⊢
    obtain ⟨⟨uri, d'⟩, huri, heq⟩ := Option.map_eq_some_iff.mp h
    obtain ⟨rfl, rfl⟩ := Prod.mk.inj heq
    exact (takesWord_readUri huri).map fun uri =>
      if (handle.drop 1 ++ uri).isEmpty then Token.tag [] ['!']
      else .tag ['!'] (handle.drop 1 ++ uri)

theorem readTag_eq (flow : Bool) (c : Cursor) :
    readTag flow c = (readTagToken c).bind fun found =>
      if found.2.atWordEnd || (flow && found.2.rest.head? = some ',') then some found else none := by
  simp only [readTag, readTagToken, Option.bind_eq_bind, Option.bind_map]
  rfl

theorem takesWord_readTag {flow : Bool} {token : Token} (h : readTag flow c = some (token, d)) :
    TakesWord (readTag flow) c token d := by
  rw [readTag_eq, Option.bind_eq_some_iff] at h
  obtain ⟨⟨token', d'⟩, hname, h⟩ := h
  rw [Option.ite_none_right_eq_some] at h
  obtain ⟨hend, heq⟩ := h
  obtain ⟨rfl, rfl⟩ := Prod.mk.inj (Option.some.inj heq)
  have htaken : TakesWord readTagToken c token' d' := by
    by_cases hv : ∃ rest, c.rest = '!' :: '<' :: rest
    · obtain ⟨rest, hv⟩ := hv
      rw [readTagName_verbatim hv] at hname
      obtain ⟨x, hx, hxw, hxl, hfinds⟩ := takesWord_readVerbatim hv hname
      refine ⟨x, hx, hxw, hxl, fun r index hr => ?_⟩
      obtain ⟨q, hq⟩ : ∃ q, x ++ r = '!' :: '<' :: q := by
        apply starts_of_firstWord (w := firstWord rest)
        rw [firstWord_append hr, ← hx, hv]
        rfl
      rw [readTagName_verbatim (c := ⟨x ++ r, _, _, _⟩) hq]
      exact hfinds r index hr
    · rw [not_exists] at hv
      rw [readTagName_handle hv] at hname
      obtain ⟨x, hx, hxw, hxl, hfinds⟩ :=
        (takesWord_handleText c).bind (g := readSuffix) (takesWord_readSuffix hname)
      refine ⟨x, hx, hxw, hxl, fun r index hr => ?_⟩
      have hv' : ∀ q, x ++ r ≠ '!' :: '<' :: q := by
        rintro q hq
        obtain ⟨q', hq'⟩ : ∃ q', c.rest = '!' :: '<' :: q' := by
          apply starts_of_firstWord (w := firstWord q)
          rw [hx, ← firstWord_append hr, hq]
          rfl
        exact hv q' hq'
      rw [readTagName_handle (c := ⟨x ++ r, _, _, _⟩) hv']
      exact hfinds r index hr
  obtain ⟨x, hx, hxw, hxl, hfinds⟩ := htaken
  refine ⟨x, hx, hxw, hxl, fun r index hr => ?_⟩
  have hcomma : OfWords (fun e => e = ',') := ofWords_of (by simp)
  have hhead := head?_any_congr hcomma hr
  rw [readTag_eq, hfinds r index hr, Option.bind_some, if_pos]
  simp only [Cursor.atWordEnd, endsWord_congr hr] at hend ⊢
  cases hd : d'.rest.head? <;> cases hr' : r.head? <;> simp_all

end ClusterConfig.Yaml
