import Mathlib
import ClusterConfig.Yaml.Writing
import ClusterConfig.Yaml.TokenStream

/-!
# From token to token

The scanner alternates between skipping to a token and reading it. A spot is what it knows between
two tokens while no key is pending, but for the index and the line: these only tell when a pending
key is given up. `Leads` relates spots, and a run follows it whatever fuel is left.
-/

set_option autoImplicit false

namespace ClusterConfig.Yaml

theorem takeWhile_append_stop {p : Char → Bool} {s rest : List Char} (hs : ∀ c ∈ s, p c)
    (hrest : ∀ c ∈ rest.head?, p c = false) : (s ++ rest).takeWhile p = s := by
  rw [List.takeWhile_append_of_pos hs]
  cases rest with
  | nil => simp
  | cons c more => simp [hrest c (by simp)]

theorem eq_space_of_mem_spaces {n : Nat} {c : Char} (h : c ∈ spaces n) : c = ' ' :=
  List.eq_of_mem_replicate h

@[simp]
theorem length_spaces (n : Nat) : (spaces n).length = n := List.length_replicate

/-- A token starts the text, or the text is over: there is nothing to skip. -/
def Starts (text : List Char) : Prop :=
  ∀ c ∈ text.head?, isSpaceOrBreak c = false ∧ c ≠ '#' ∧ isByteOrderMark c = false

theorem Starts.nil : Starts [] := by simp [Starts]

theorem Starts.not_space {text : List Char} (h : Starts text) : ∀ c ∈ text.head?, c ≠ ' ' := by
  intro c hc hs
  simpa [hs, isSpaceOrBreak, isSpaceOrTab] using (h c hc).1

theorem Starts.not_tab {text : List Char} (h : Starts text) : ∀ c ∈ text.head?, c ≠ '\t' := by
  intro c hc hs
  simpa [hs, isSpaceOrBreak, isSpaceOrTab] using (h c hc).1

theorem Starts.not_break {text : List Char} (h : Starts text) :
    ∀ c ∈ text.head?, isLineBreak c = false := by
  intro c hc
  exact (Bool.or_eq_false_iff.mp (h c hc).1).2

theorem lineBreak?_eq_none {c : Cursor} (h : ∀ x ∈ c.rest.head?, isLineBreak x = false) :
    c.lineBreak? = none := by
  obtain ⟨rest, index, line, column⟩ := c
  rw [Cursor.lineBreak?]
  cases rest with
  | nil => rfl
  | cons x more =>
    have hx := h x (by simp)
    split
    · rename_i heq
      simp only [List.cons.injEq] at heq
      simp [heq.1, isLineBreak] at hx
    · rename_i heq
      simp only [List.cons.injEq] at heq
      rw [← heq.1, hx]
      rfl
    · rfl

namespace Scan

/-- Skips to the next token, gives up the keys that end before it and closes the collections left
of whose entries it stands. -/
def settle (s : Scan) : Option Scan :=
  (skipBlanks (s.cursor.rest.length + 1) s).dropStaleKeys.map fun s =>
    s.closeBlocks (some s.cursor.column)

/-- The tokens from the start of a token on, the last one first. -/
def resume (fuel : Nat) (s : Scan) : List Token :=
  if s.cursor.atEnd then
    match s.finish with
    | some s => s.tokens
    | none => .invalid :: s.tokens
  else
    match s.next with
    | some s => run fuel s
    | none => .invalid :: s.tokens

theorem run_eq_resume {s t : Scan} (h : s.settle = some t) (fuel : Nat) :
    run (fuel + 1) s = resume fuel t := by
  obtain ⟨u, hu, rfl⟩ := Option.map_eq_some_iff.mp h
  rw [run]
  simp only [hu]
  rfl

/-- One token is read, and what follows it is skipped. -/
def Advances (s t : Scan) : Prop :=
  s.cursor.atEnd = false ∧ s.next.bind settle = some t ∧
    t.cursor.rest.length < s.cursor.rest.length

/-- Some tokens are read. -/
def Reaches : Scan → Scan → Prop := Relation.ReflTransGen Advances

theorem resume_of_advances {s t : Scan} (h : Advances s t) (fuel : Nat) :
    resume (fuel + 1) s = resume fuel t := by
  obtain ⟨hend, hnext, -⟩ := h
  obtain ⟨u, hu, ht⟩ := Option.bind_eq_some_iff.mp hnext
  rw [resume, hend, hu]
  exact run_eq_resume ht fuel

/-- As every token takes a character, fuel for all characters is fuel for all tokens. -/
theorem resume_of_reaches {s t : Scan} (h : Reaches s t) {fuel : Nat}
    (hf : s.cursor.rest.length ≤ fuel) :
    ∃ left, t.cursor.rest.length ≤ left ∧ resume fuel s = resume left t := by
  induction h with
  | refl => exact ⟨fuel, hf, rfl⟩
  | tail _ hstep ih =>
    obtain ⟨left, hleft, heq⟩ := ih
    have hlt := hstep.2.2
    obtain ⟨k, rfl⟩ : ∃ k, left = k + 1 := ⟨left - 1, by omega⟩
    exact ⟨k, by omega, heq.trans (resume_of_advances hstep k)⟩

end Scan

/-- What the scanner knows where no key is pending, but for the index and the line. -/
structure Spot where
  rest : List Char
  column : Nat
  /-- A key may start here. -/
  allowed : Bool
  /-- The columns of the open collections, the innermost first. -/
  indents : List Nat
  /-- The tokens so far, the last one first. -/
  tokens : List Token

namespace Spot

/-- The scanner at a spot of block context, with a key pending or not. -/
def scan (p : Spot) (key : Option KeyPlace) (index line : Nat) : Scan :=
  ⟨⟨p.rest, index, line, p.column⟩, p.tokens, p.tokens.length, p.indents, p.allowed, [key]⟩

/-- The scanner comes from the first spot to the second. -/
def Leads (p q : Spot) : Prop :=
  ∀ index line, ∃ index' line', Scan.Reaches (p.scan none index line) (q.scan none index' line')

variable {p q r : Spot} {key : Option KeyPlace} {index line : Nat}

theorem Leads.refl (p : Spot) : Leads p p := fun index line => ⟨index, line, .refl⟩

theorem Leads.trans (h : Leads p q) (h' : Leads q r) : Leads p r := by
  intro index line
  obtain ⟨i, l, hi⟩ := h index line
  obtain ⟨j, m, hj⟩ := h' i l
  exact ⟨j, m, hi.trans hj⟩

/-- The collections right of a column are closed. -/
def closed (p : Spot) (column : Nat) : Spot :=
  { p with
    indents := p.indents.dropWhile (column < ·)
    tokens := List.replicate (p.indents.takeWhile (column < ·)).length .blockEnd ++ p.tokens }

/-- A pending key that is required would be an error to give up; any other is given up once its line
is over. -/
def Gone (line : Nat) (key : Option KeyPlace) : Prop :=
  ∀ place ∈ key, place.required = false ∧ place.line < line

theorem Gone.none (line : Nat) : Gone line none := by simp [Gone]

theorem drop_length_takeWhile {α : Type} (f : α → Bool) (l : List α) :
    l.drop (l.takeWhile f).length = l.dropWhile f := by
  induction l with
  | nil => rfl
  | cons x rest ih => cases h : f x <;> simp [h, ih]

theorem closeBlocks_scan (p : Spot) (key : Option KeyPlace) (index line column : Nat) :
    (p.scan key index line).closeBlocks (some column) =
      (p.closed column).scan key index line := by
  simp [Scan.closeBlocks, Scan.inFlow, scan, closed, drop_length_takeWhile, Nat.add_comm]

theorem dropStaleKeys_gone (h : Gone line key) :
    (p.scan key index line).dropStaleKeys = some (p.scan none index line) := by
  cases key with
  | none => rfl
  | some place =>
    obtain ⟨hr, hl⟩ := h place rfl
    simp [Scan.dropStaleKeys, scan, Scan.isStale, hr, hl]

theorem dropStaleKeys_kept {place : KeyPlace} (hl : place.line = line)
    (hi : index ≤ place.index + 1024) :
    (p.scan (some place) index line).dropStaleKeys = some (p.scan (some place) index line) := by
  have hn : ¬ place.index + 1024 < index := by omega
  simp [Scan.dropStaleKeys, scan, Scan.isStale, hl, hn]

theorem skipComment_of_starts {c : Cursor} (h : Starts c.rest) : c.skipComment = c := by
  obtain ⟨rest, i, l, k⟩ := c
  cases rest with
  | nil => rfl
  | cons x more =>
    have hx := (h x (by simp)).2.1
    rw [Cursor.skipComment]
    split
    · rename_i heq
      exact absurd (List.cons.inj heq).1 hx
    · rfl

theorem skipBlanks_spaces {n : Nat} {rest : List Char} (p : Spot) (key : Option KeyPlace)
    (index line fuel : Nat) (hp : p.rest = spaces n ++ rest) (hs : Starts rest) :
    Scan.skipBlanks (fuel + 1) (p.scan key index line) =
      ({ p with rest := rest, column := p.column + n }.scan key (index + n) line) := by
  have hmark : p.rest.head?.any isByteOrderMark = false := by
    rw [hp]
    cases n with
    | zero =>
      cases rest with
      | nil => rfl
      | cons x more => exact (hs x (by simp)).2.2
    | succ n => rfl
  have htake : p.rest.takeWhile (fun x => x = ' ' || (!p.allowed && x = '\t')) = spaces n := by
    rw [hp]
    apply takeWhile_append_stop
    · intro c hc
      simp [eq_space_of_mem_spaces hc]
    · intro c hc
      simp [hs.not_space c hc, hs.not_tab c hc]
  have hdrop : p.rest.drop n = rest := by simp [hp]
  have hbreak : Cursor.lineBreak? ⟨rest, index + n, line, p.column + n⟩ = none :=
    lineBreak?_eq_none hs.not_break
  have hcomment : Cursor.skipComment ⟨rest, index + n, line, p.column + n⟩ = _ :=
    skipComment_of_starts hs
  simp [Scan.skipBlanks, scan, Scan.inFlow, Cursor.startsWith, hmark, Cursor.advanceWhile,
    htake, Cursor.advance, hdrop, hbreak, hcomment, Scan.goTo]

theorem skipBlanks_break {n : Nat} {rest : List Char} (p : Spot) (key : Option KeyPlace)
    (index line fuel : Nat) (hp : p.rest = '\n' :: (spaces n ++ rest)) (hs : Starts rest) :
    Scan.skipBlanks (fuel + 2) (p.scan key index line) =
      ({ p with rest := rest, column := n, allowed := true }.scan key (index + 1 + n)
        (line + 1)) := by
  -- behind the break it is the case of spaces again, at column zero and where a key may start
  have hnext := skipBlanks_spaces ⟨spaces n ++ rest, 0, true, p.indents, p.tokens⟩ key (index + 1)
    (line + 1) fuel rfl hs
  obtain ⟨text, column, allowed, indents, tokens⟩ := p
  obtain rfl : text = '\n' :: (spaces n ++ rest) := hp
  simp only [Nat.zero_add] at hnext
  rw [Scan.skipBlanks]
  simpa [scan, Scan.inFlow, Cursor.startsWith, isByteOrderMark, Cursor.advanceWhile, Cursor.advance,
    Cursor.skipComment, Cursor.lineBreak?, isLineBreak, isSeparator, Scan.goTo, Scan.allowKey]
    using hnext

/-- What is settled where a token starts after some spaces. -/
theorem settle_spaces {n : Nat} {rest : List Char} (hp : p.rest = spaces n ++ rest)
    (hs : Starts rest) (hk : Gone line key) :
    (p.scan key index line).settle =
      some (({ p with rest := rest, column := p.column + n }.closed (p.column + n)).scan none
        (index + n) line) := by
  rw [Scan.settle, skipBlanks_spaces p key index line _ hp hs, dropStaleKeys_gone hk]
  exact congrArg some (closeBlocks_scan _ _ _ _ _)

/-- What is settled where a token starts on the next line. -/
theorem settle_break {n : Nat} {rest : List Char} (hp : p.rest = '\n' :: (spaces n ++ rest))
    (hs : Starts rest) (hk : Gone (line + 1) key) :
    (p.scan key index line).settle =
      some (({ p with rest := rest, column := n, allowed := true }.closed n).scan none
        (index + 1 + n) (line + 1)) := by
  have hlen : ∃ k, (p.scan key index line).cursor.rest.length + 1 = k + 2 :=
    ⟨n + rest.length, by simp [scan, hp]⟩
  obtain ⟨k, hk2⟩ := hlen
  rw [Scan.settle, hk2, skipBlanks_break p key index line k hp hs, dropStaleKeys_gone hk]
  exact congrArg some (closeBlocks_scan _ _ _ _ _)

/-- Nothing is skipped after a key on its line. -/
theorem settle_kept {place : KeyPlace} (hs : Starts p.rest) (hl : place.line = line)
    (hi : index ≤ place.index + 1024) :
    (p.scan (some place) index line).settle =
      some ((p.closed p.column).scan (some place) index line) := by
  have h := skipBlanks_spaces (n := 0) p (some place) index line
    (p.scan (some place) index line).cursor.rest.length rfl hs
  rw [Scan.settle, h]
  exact (congrArg _ (dropStaleKeys_kept hl hi)).trans
    (congrArg some (closeBlocks_scan _ _ _ _ _))

/-! ## Marks -/

theorem Leads.of_next (hend : p.rest ≠ [])
    (hnext : ∀ index line, ∃ s index' line',
      (p.scan none index line).next = some s ∧ s.settle = some (q.scan none index' line'))
    (hlen : q.rest.length < p.rest.length) : p.Leads q := by
  intro index line
  obtain ⟨s, i, l, hn, hs⟩ := hnext index line
  refine ⟨i, l, .single ⟨?_, ?_, hlen⟩⟩
  · simpa [Cursor.atEnd, scan] using hend
  · rw [hn]
    exact hs

/-- A block collection opens at the column unless one is open there. -/
def opened (p : Spot) (token : Token) : Spot :=
  if p.indents.head?.any (p.column ≤ ·) then p
  else { p with indents := p.column :: p.indents, tokens := token :: p.tokens }

theorem openBlock_scan (p : Spot) (key : Option KeyPlace) (index line : Nat) (token : Token) :
    (p.scan key index line).openBlock p.column none token =
      (p.opened token).scan key index line := by
  rw [Scan.openBlock, opened]
  by_cases h : p.indents.head?.any (p.column ≤ ·) = true <;>
    simp [scan, Scan.inFlow, Scan.indent, Scan.put, h]

/-- The place after a mark of `n` characters. -/
def marked (p : Spot) (token : Token) (n : Nat) (allowed : Bool) : Spot :=
  { p with
    rest := p.rest.drop n
    column := p.column + n
    allowed := allowed
    tokens := token :: p.tokens }

theorem opened_rest (token : Token) : (p.opened token).rest = p.rest := by
  rw [opened]; split <;> rfl

theorem opened_column (token : Token) : (p.opened token).column = p.column := by
  rw [opened]; split <;> rfl

theorem next_item {more : List Char} (hp : p.rest = '-' :: ' ' :: more) (ha : p.allowed = true) :
    (p.scan none index line).next =
      some (((p.opened .blockSequence).marked .blockEntry 1 true).scan none (index + 1) line) := by
  have hopen := openBlock_scan p none index line .blockSequence
  have hnext : (p.scan none index line).next = (p.scan none index line).blockEntry := by
    simp [Scan.next, scan, boundary?, hp, endsWord, isSpaceOrBreak, isSpaceOrTab]
  rw [hnext, Scan.blockEntry]
  have hc : (p.scan none index line).cursor.column = p.column := rfl
  rw [hc, hopen]
  simp [scan, ha, Scan.dropKey, Scan.key, Scan.setKey, Scan.allowKey, Scan.mark, Scan.put,
    Scan.goTo, Cursor.advance, marked]

theorem next_explicitKey {more : List Char} (hp : p.rest = '?' :: ' ' :: more)
    (ha : p.allowed = true) :
    (p.scan none index line).next =
      some (((p.opened .blockMapping).marked .key 1 true).scan none (index + 1) line) := by
  have hopen := openBlock_scan p none index line .blockMapping
  have hnext : (p.scan none index line).next = (p.scan none index line).explicitKey := by
    simp [Scan.next, scan, boundary?, hp, endsWord, isSpaceOrBreak, isSpaceOrTab]
  rw [hnext, Scan.explicitKey]
  have hc : (p.scan none index line).cursor.column = p.column := rfl
  rw [hc, hopen]
  simp [scan, ha, Scan.dropKey, Scan.key, Scan.setKey, Scan.allowKey, Scan.mark, Scan.put,
    Scan.goTo, Cursor.advance, marked, Scan.inFlow]

theorem next_explicitValue {more : List Char} (hp : p.rest = ':' :: ' ' :: more)
    (ha : p.allowed = true) :
    (p.scan none index line).next =
      some (((p.opened .blockMapping).marked .value 1 true).scan none (index + 1) line) := by
  have hopen := openBlock_scan p none index line .blockMapping
  have hnext : (p.scan none index line).next = (p.scan none index line).mappingValue := by
    simp [Scan.next, scan, boundary?, hp, endsWord, isSpaceOrBreak, isSpaceOrTab]
  have hk : (p.scan none index line).key = none := rfl
  rw [hnext, Scan.mappingValue, hk]
  have hc : (p.scan none index line).cursor.column = p.column := rfl
  simp only [hc, hopen]
  simp [scan, ha, Scan.allowKey, Scan.mark, Scan.put, Scan.goTo, Cursor.advance, marked,
    Scan.inFlow]

/-- The spot after the colon of a key on the same line, in front of which the key mark is put. -/
def keyed (p : Spot) (token : Token) (more : List Char) (length : Nat) : Spot :=
  { rest := more
    column := p.column + length + 1
    allowed := false
    indents := (p.opened .blockMapping).indents
    tokens := .value :: token :: .key :: (p.opened .blockMapping).tokens }

/-- The spot after a token on one line. -/
def read (p : Spot) (token : Token) (more : List Char) (length : Nat) : Spot :=
  { p with
    rest := more
    column := p.column + length
    allowed := false
    tokens := token :: p.tokens }

theorem next_colon {token : Token} {more : List Char} {length : Nat} {place : KeyPlace}
    (hposition : place.position = p.tokens.length) (hcolumn : place.column = p.column)
    (hmore : endsWord more = true) :
    ((p.read token (':' :: more) length).scan (some place) index line).next =
      some ((p.keyed token more length).scan none (index + 1) line) := by
  have hnext : ((p.read token (':' :: more) length).scan (some place) index line).next =
      ((p.read token (':' :: more) length).scan (some place) index line).mappingValue := by
    simp [Scan.next, scan, read, boundary?, hmore]
  have htwo : p.tokens.length + 1 + 1 - p.tokens.length = 2 := by omega
  rw [hnext, Scan.mappingValue]
  by_cases h : p.indents.head?.any (p.column ≤ ·) = true <;>
    simp [scan, read, keyed, opened, Scan.key, Scan.insert, hposition, hcolumn, Scan.openBlock,
      Scan.inFlow, Scan.indent, h, Scan.setKey, Scan.allowKey, Scan.mark, Scan.put, Scan.goTo,
      Cursor.advance, htwo]

/-! ## Keys and values -/

/-- The key that is pending once a token that starts here is read. -/
def newKey (p : Spot) (index line : Nat) : Option KeyPlace :=
  if p.allowed then
    some ⟨p.tokens.length, index, line, p.column, p.indents.head? = some p.column⟩
  else none

theorem saveKey_scan :
    (p.scan none index line).saveKey = some (p.scan (p.newKey index line) index line) := by
  rw [Scan.saveKey, newKey]
  cases h : p.allowed with
  | false => simp [scan, h]
  | true =>
    simp only [scan, h, if_true, Scan.dropKey, Scan.key, Scan.setKey, Scan.inFlow, Scan.indent]
    rfl

/-- The pending key may be given up where the spot lies right of the innermost collection. -/
theorem newKey_gone {line' : Nat} (hc : ∀ n ∈ p.indents.head?, n < p.column) (hl : line < line') :
    Gone line' (p.newKey index line) := by
  intro place hp
  rw [newKey] at hp
  split at hp
  · obtain rfl := Option.some.inj hp
    refine ⟨?_, hl⟩
    simp only [decide_eq_false_iff_not]
    intro hh
    exact absurd (hc p.column hh) (Nat.lt_irrefl _)
  · cases hp

/-- What may follow a value of a collection at `outer`: an entry of that collection or one left of
it, and at the top level the next document or the end. -/
def Follows (outer : Option Nat) (column : Nat) (rest : List Char) : Prop :=
  Starts rest ∧
    match outer with
    | some n => column ≤ n
    | none => column = 0 ∧ (rest = [] ∨ ∃ more, rest = '-' :: '-' :: '-' :: '\n' :: more)

/-- A text, its last line break included, that is scanned as some tokens wherever a value may stand
in a collection at `outer`. -/
def Scans (outer : Option Nat) (text : List Char) (tokens : List Token) : Prop :=
  ∀ (p : Spot) (n : Nat) (rest : List Char), p.rest = text ++ (spaces n ++ rest) →
    p.indents.head? = outer → (∀ k ∈ outer, k < p.column) → Follows outer n rest →
      p.Leads (closed ⟨rest, n, true, p.indents, tokens.reverse ++ p.tokens⟩ n)

/-- A text that is scanned as one token where a key on one line may stand. -/
def ScansKey (text : List Char) (token : Token) : Prop :=
  text ≠ [] ∧ text.length ≤ 1024 ∧
    ∀ (p : Spot) (more : List Char), p.rest = text ++ ':' :: more → endsWord more = true →
      p.allowed = true → (∀ k ∈ p.indents.head?, k ≤ p.column) →
        ∀ index line, (p.scan none index line).next =
          some ((p.read token (':' :: more) text.length).scan (p.newKey index line)
            (index + text.length) line)

theorem closed_eq_self {column : Nat} (h : ∀ k ∈ p.indents.head?, k ≤ column) :
    p.closed column = p := by
  obtain ⟨rest, c, allowed, indents, tokens⟩ := p
  cases indents with
  | nil => rfl
  | cons k more =>
    have hk : ¬ column < k := by simpa using h k
    simp [closed, hk]

theorem opened_head (token : Token) (h : ∀ k ∈ p.indents.head?, k ≤ p.column) :
    (p.opened token).indents.head? = some p.column := by
  rw [opened]
  cases hi : p.indents.head? with
  | none => rfl
  | some k =>
    have hk := h k (by simp [hi])
    by_cases hle : p.column ≤ k
    · simp [hi, Nat.le_antisymm hk hle]
    · simp [hle]

/-- A text that ends with its line is scanned as its token where the token is read. -/
theorem scans_of_next {outer : Option Nat} {text : List Char} {token : Token}
    (h : ∀ (p : Spot) (more : List Char), p.rest = text ++ '\n' :: more →
      ∀ index line, ∃ column index' line', line ≤ line' ∧
        (p.scan none index line).next =
          some (scan ⟨'\n' :: more, column, false, p.indents, token :: p.tokens⟩
            (p.newKey index line) index' line')) :
    Scans outer (text ++ ['\n']) [token] := by
  intro p n rest hp ho hc hf
  have hp' : p.rest = text ++ '\n' :: (spaces n ++ rest) := by simpa using hp
  apply Leads.of_next (by simp [hp'])
  · intro index line
    obtain ⟨column, index', line', hl, hn⟩ := h p _ hp' index line
    refine ⟨_, _, _, hn, settle_break rfl hf.1 ?_⟩
    exact newKey_gone (by rwa [ho]) (by omega)
  · simp [closed, hp']
    omega

theorem le_of_opened_head {token : Token} {column : Nat}
    (hh : ∀ k ∈ p.indents.head?, k ≤ p.column) (hc : p.column ≤ column) :
    ∀ k ∈ (p.opened token).indents.head?, k ≤ column := by
  rw [opened_head token hh]
  rintro k ⟨⟩
  exact hc

variable {rest : List Char}

/-- A mark in front of which a collection opens, and the space after it. -/
theorem leads_marked {c : Char} {token mark : Token} (hp : p.rest = c :: ' ' :: rest)
    (hs : Starts rest) (hh : ∀ k ∈ p.indents.head?, k ≤ p.column)
    (hnext : ∀ index line, (p.scan none index line).next =
      some (((p.opened token).marked mark 1 true).scan none (index + 1) line)) :
    p.Leads ⟨rest, p.column + 2, true, (p.opened token).indents,
      mark :: (p.opened token).tokens⟩ := by
  have hmarked : (p.opened token).marked mark 1 true =
      ⟨spaces 1 ++ rest, p.column + 1, true, (p.opened token).indents,
        mark :: (p.opened token).tokens⟩ := by
    simp [marked, opened_rest, opened_column, hp, spaces]
  rw [hmarked] at hnext
  apply Leads.of_next (by simp [hp])
  · intro index line
    refine ⟨_, index + 1 + 1, line, hnext index line, ?_⟩
    rw [settle_spaces rfl hs (Gone.none line), closed_eq_self]
    exact le_of_opened_head hh (Nat.le_add_right p.column 2)
  · simp [hp]

theorem leads_item (hp : p.rest = '-' :: ' ' :: rest) (hs : Starts rest) (ha : p.allowed = true)
    (hh : ∀ k ∈ p.indents.head?, k ≤ p.column) :
    p.Leads ⟨rest, p.column + 2, true, (p.opened .blockSequence).indents,
      .blockEntry :: (p.opened .blockSequence).tokens⟩ :=
  leads_marked hp hs hh fun _ _ => next_item hp ha

theorem leads_explicitKey (hp : p.rest = '?' :: ' ' :: rest) (hs : Starts rest)
    (ha : p.allowed = true) (hh : ∀ k ∈ p.indents.head?, k ≤ p.column) :
    p.Leads ⟨rest, p.column + 2, true, (p.opened .blockMapping).indents,
      .key :: (p.opened .blockMapping).tokens⟩ :=
  leads_marked hp hs hh fun _ _ => next_explicitKey hp ha

theorem leads_explicitValue (hp : p.rest = ':' :: ' ' :: rest) (hs : Starts rest)
    (ha : p.allowed = true) (hh : ∀ k ∈ p.indents.head?, k ≤ p.column) :
    p.Leads ⟨rest, p.column + 2, true, (p.opened .blockMapping).indents,
      .value :: (p.opened .blockMapping).tokens⟩ :=
  leads_marked hp hs hh fun _ _ => next_explicitValue hp ha

/-- A key and its colon are read; `q` is where the value is found. -/
theorem leads_key {text : List Char} {token : Token} (hk : ScansKey text token)
    (hp : p.rest = text ++ ':' :: rest) (hr : endsWord rest = true) (ha : p.allowed = true)
    (hh : ∀ k ∈ p.indents.head?, k ≤ p.column)
    (hq : ∀ index line, ∃ index' line',
      ((p.keyed token rest text.length).scan none index line).settle =
        some (q.scan none index' line'))
    (hlen : q.rest.length ≤ rest.length) : p.Leads q := by
  obtain ⟨hne, hlength, hread⟩ := hk
  intro index line
  have hplace : p.newKey index line =
      some ⟨p.tokens.length, index, line, p.column, p.indents.head? = some p.column⟩ := by
    rw [newKey, if_pos ha]
  have hcolon : Starts (':' :: rest) := by
    simp [Starts, isSpaceOrBreak, isSpaceOrTab, isLineBreak, isSeparator, isByteOrderMark]
  have hclosed : ∀ k ∈ (p.read token (':' :: rest) text.length).indents.head?,
      k ≤ (p.read token (':' :: rest) text.length).column :=
    fun k hk => (hh k hk).trans (Nat.le_add_right _ _)
  -- two steps: the token leaves its key pending, and the colon then puts the key in front of it
  have hkey : Scan.Advances (p.scan none index line)
      ((p.read token (':' :: rest) text.length).scan (p.newKey index line)
        (index + text.length) line) := by
    refine ⟨by simp [Cursor.atEnd, scan, hp], ?_, ?_⟩
    · rw [hread p rest hp hr ha hh index line, Option.bind_some, hplace,
        settle_kept hcolon rfl (Nat.add_le_add_left hlength _), closed_eq_self hclosed]
    · simpa [scan, read, hp] using List.length_pos_iff.mpr hne
  obtain ⟨i, l, hs⟩ := hq (index + text.length + 1) line
  refine ⟨i, l, Relation.ReflTransGen.tail (.single hkey)
    ⟨by simp [Cursor.atEnd, scan, read], ?_, ?_⟩⟩
  · rw [hplace, next_colon rfl rfl hr]
    exact hs
  · exact Nat.lt_succ_of_le hlen

theorem leads_keyed {text : List Char} {token : Token} (hk : ScansKey text token)
    (hp : p.rest = text ++ ':' :: ' ' :: rest) (hs : Starts rest) (ha : p.allowed = true)
    (hh : ∀ k ∈ p.indents.head?, k ≤ p.column) :
    p.Leads ⟨rest, p.column + text.length + 2, false, (p.opened .blockMapping).indents,
      .value :: token :: .key :: (p.opened .blockMapping).tokens⟩ := by
  apply leads_key hk hp (by rfl) ha hh
  · intro index line
    rw [settle_spaces (n := 1) rfl hs (Gone.none line), closed_eq_self]
    · exact ⟨_, _, rfl⟩
    · exact le_of_opened_head hh (by simp [keyed]; omega)
  · simp

theorem leads_keyed_broken {text : List Char} {token : Token} {n : Nat} (hk : ScansKey text token)
    (hp : p.rest = text ++ ':' :: '\n' :: (spaces n ++ rest)) (hs : Starts rest)
    (ha : p.allowed = true) (hh : ∀ k ∈ p.indents.head?, k ≤ p.column) (hn : p.column ≤ n) :
    p.Leads ⟨rest, n, true, (p.opened .blockMapping).indents,
      .value :: token :: .key :: (p.opened .blockMapping).tokens⟩ := by
  apply leads_key hk hp (by rfl) ha hh
  · intro index line
    rw [settle_break rfl hs (Gone.none _), closed_eq_self]
    · exact ⟨_, _, rfl⟩
    · exact le_of_opened_head hh hn
  · simp
    omega

/-! ## Empty collections -/

/-- Between the brackets of an empty collection. -/
def between (p : Spot) (token : Token) (more : List Char) (index line : Nat) : Scan :=
  ⟨⟨more, index + 1, line, p.column + 1⟩, token :: p.tokens, p.tokens.length + 1, p.indents, true,
    [none, p.newKey index line]⟩

theorem openFlow_scan {token : Token} {c : Char} {more : List Char} (hp : p.rest = c :: more) :
    (p.scan none index line).openFlow token = some (p.between token more index line) := by
  rw [Scan.openFlow, saveKey_scan]
  simp [scan, Scan.allowKey, Scan.mark, Scan.put, Scan.goTo, Cursor.advance, hp, between]

theorem settle_between {token : Token} {more : List Char} (hs : Starts more) :
    (p.between token more index line).settle = some (p.between token more index line) := by
  have hcomment : Cursor.skipComment ⟨more, index + 1, line, p.column + 1⟩ = _ :=
    skipComment_of_starts hs
  have hbreak : Cursor.lineBreak? ⟨more, index + 1, line, p.column + 1⟩ = none :=
    lineBreak?_eq_none hs.not_break
  have htake : more.takeWhile (fun x => x = ' ' || x = '\t') = [] := by
    apply takeWhile_append_stop (s := [])
    · simp
    · intro c hc
      simp [hs.not_space c hc, hs.not_tab c hc]
  have hskip : Scan.skipBlanks (more.length + 1) (p.between token more index line) =
      p.between token more index line := by
    simp [Scan.skipBlanks, between, Scan.inFlow, Cursor.advanceWhile, htake, Cursor.advance,
      hcomment, hbreak, Scan.goTo]
  have hstale : (p.between token more index line).dropStaleKeys =
      some (p.between token more index line) := by
    cases ha : p.allowed <;> simp [Scan.dropStaleKeys, between, newKey, ha, Scan.isStale]
  -- inside brackets columns mean nothing: no block is closed
  have hflow : (p.between token more index line).inFlow = true := by simp [between, Scan.inFlow]
  have hlen : (p.between token more index line).cursor.rest.length = more.length := rfl
  rw [Scan.settle, hlen, hskip, hstale, Option.map_some, Scan.closeBlocks, if_pos hflow]

theorem closeFlow_between {token ending : Token} {c : Char} {more : List Char} :
    (p.between token (c :: more) index line).closeFlow ending =
      some (scan ⟨more, p.column + 2, false, p.indents, ending :: token :: p.tokens⟩
        (p.newKey index line) (index + 2) line) := by
  simp [Scan.closeFlow, between, Scan.dropKey, Scan.key, Scan.setKey, Scan.inFlow, Scan.allowKey,
    Scan.mark, Scan.put, Scan.goTo, Cursor.advance, scan]

theorem Leads.of_flow {token ending : Token} {c d : Char} {n : Nat}
    (hopen : ∀ index line, (p.scan none index line).next =
      (p.scan none index line).openFlow token)
    (hclose : ∀ index line, (p.between token (d :: '\n' :: (spaces n ++ rest)) index line).next =
      (p.between token (d :: '\n' :: (spaces n ++ rest)) index line).closeFlow ending)
    (hp : p.rest = c :: d :: '\n' :: (spaces n ++ rest))
    (hd : Starts (d :: '\n' :: (spaces n ++ rest)))
    (hc : ∀ k ∈ p.indents.head?, k < p.column) (hs : Starts rest) :
    p.Leads (closed ⟨rest, n, true, p.indents, ending :: token :: p.tokens⟩ n) := by
  intro index line
  have hfirst : Scan.Advances (p.scan none index line)
      (p.between token (d :: '\n' :: (spaces n ++ rest)) index line) := by
    refine ⟨by simp [Cursor.atEnd, scan, hp], ?_, by simp [between, scan, hp]⟩
    rw [hopen, openFlow_scan hp, Option.bind_some, settle_between hd]
  have hsecond : Scan.Advances (p.between token (d :: '\n' :: (spaces n ++ rest)) index line)
      ((closed ⟨rest, n, true, p.indents, ending :: token :: p.tokens⟩ n).scan none
        (index + 2 + 1 + n) (line + 1)) := by
    refine ⟨by simp [Cursor.atEnd, between], ?_, by simp [between, scan, closed]; omega⟩
    rw [hclose, closeFlow_between, Option.bind_some]
    exact settle_break rfl hs (newKey_gone hc (Nat.lt_succ_self line))
  exact ⟨_, _, .tail (.single hfirst) hsecond⟩

theorem scans_emptySequence (outer : Option Nat) :
    Scans outer ['[', ']', '\n'] [.flowSequence, .flowSequenceEnd] := by
  intro p n rest hp ho hc hf
  refine Leads.of_flow (fun _ _ => ?_) (fun _ _ => ?_) hp ?_ (by rwa [ho]) hf.1
  · simp [Scan.next, scan, boundary?, hp]
  · simp [Scan.next, between, boundary?]
  · simp [Starts, isSpaceOrBreak, isSpaceOrTab, isLineBreak, isSeparator, isByteOrderMark]

theorem scans_emptyMapping (outer : Option Nat) :
    Scans outer ['{', '}', '\n'] [.flowMapping, .flowMappingEnd] := by
  intro p n rest hp ho hc hf
  refine Leads.of_flow (fun _ _ => ?_) (fun _ _ => ?_) hp ?_ (by rwa [ho]) hf.1
  · simp [Scan.next, scan, boundary?, hp]
  · simp [Scan.next, between, boundary?]
  · simp [Starts, isSpaceOrBreak, isSpaceOrTab, isLineBreak, isSeparator, isByteOrderMark]

/-! ## Documents -/

/-- Every collection is closed. -/
def ended (p : Spot) : Spot :=
  { p with indents := [], tokens := List.replicate p.indents.length .blockEnd ++ p.tokens }

theorem closeBlocks_all (p : Spot) (key : Option KeyPlace) (index line : Nat) :
    (p.scan key index line).closeBlocks none = p.ended.scan key index line := by
  have hall : p.indents.takeWhile (fun _ => true) = p.indents := by
    simp [List.takeWhile_eq_self_iff]
  simp [Scan.closeBlocks, scan, Scan.inFlow, ended, hall, Nat.add_comm]

theorem next_documentStart (hp : p.rest = '-' :: '-' :: '-' :: '\n' :: rest) (hc : p.column = 0) :
    (p.scan none index line).next =
      some ((p.ended.marked .documentStart 3 false).scan none (index + 3) line) := by
  have hb : boundary? (p.scan none index line).cursor = some .start := by
    simp [boundary?, scan, hp, hc, endsWord, isSpaceOrBreak, isLineBreak]
  rw [Scan.next, hb]
  simp only [Scan.atTopLevel]
  rw [closeBlocks_all]
  simp [scan, Scan.dropKey, Scan.key, Scan.setKey, Scan.allowKey, Scan.mark, Scan.put, Scan.goTo,
    Cursor.advance, marked, ended]

theorem leads_documentStart (hp : p.rest = '-' :: '-' :: '-' :: '\n' :: rest) (hs : Starts rest)
    (hc : p.column = 0) :
    p.Leads ⟨rest, 0, true, [], .documentStart :: p.ended.tokens⟩ := by
  apply Leads.of_next (by simp [hp])
  · intro index line
    have hrest : (p.ended.marked .documentStart 3 false).rest = '\n' :: (spaces 0 ++ rest) := by
      simp [marked, ended, hp, spaces]
    exact ⟨_, _, _, next_documentStart hp hc, settle_break hrest hs (Gone.none _)⟩
  · simp [hp]
    omega

theorem resume_end (fuel : Nat) (hp : p.rest = []) :
    (p.scan none index line).resume fuel = p.ended.tokens := by
  have hend : (p.scan none index line).cursor.atEnd = true := by simp [scan, Cursor.atEnd, hp]
  rw [Scan.resume, if_pos hend, Scan.finish, closeBlocks_all]
  rfl

end Spot

end ClusterConfig.Yaml
