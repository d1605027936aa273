import ClusterConfig.Proofs.Variables.Expressions

/-!
# The table of expressions

What an expression stands for, as rules on texts. A variable is looked up before its word is touched.
Whether it is set, and with a colon whether its value is empty, decides if the word is used; a word
that is used is expanded with the variables as they are, and what follows with those it leaves. A
word that is not used may be anything. Expansion follows these rules and no others.
-/

set_option autoImplicit false

namespace ClusterConfig.Variables

/-- Whether a value counts: with a colon an empty one does not. -/
def Counts (colon : Bool) (value : Option String) : Prop :=
  ∃ v, value = some v ∧ (colon = true → v ≠ "")

/-- The word of `+` is used if the value counts, any other word if it does not. -/
def Operator.Uses (operator : Operator) (colon : Bool) (value : Option String) : Prop :=
  operator = .alternative ↔ Counts colon value

/-- What stands for an expression whose word is not used. -/
def Operator.without (operator : Operator) (value : Option String) : List Char :=
  if operator = .alternative then [] else (value.getD "").toList

/-- An outcome with a text in front of what it gives. -/
def Outcome.behind (out : Outcome) (text : List Char) : Outcome :=
  ⟨out.vars, out.result.map (text ++ ·)⟩

/-- A text that stands for the value of a variable, with what follows it. -/
inductive Mentions (name : List Char) : List Char → List Char → Prop
  | bare {rest : List Char} (h : EndsName rest) : Mentions name ('$' :: (name ++ rest)) rest
  | braced (rest : List Char) : Mentions name (braced name ++ rest) rest

/-- How a text that starts on a line expands. -/
inductive Expands : List Char → Nat → Bindings → Outcome → Prop
  | nil {line : Nat} {vars : Bindings} : Expands [] line vars ⟨vars, .ok []⟩
  | char {c : Char} {rest : List Char} {line : Nat} {vars : Bindings} {out : Outcome}
      (hc : c ≠ '$') (hrest : Expands rest (line + Text.newlineCount [c]) vars out) :
      Expands (c :: rest) line vars (out.behind [c])
  | escaped {rest : List Char} {line : Nat} {vars : Bindings} {out : Outcome}
      (hrest : Expands rest line vars out) :
      Expands ('$' :: '$' :: rest) line vars (out.behind ['$'])
  | lone {rest : List Char} {line : Nat} {vars : Bindings} {out : Outcome}
      (h : ∀ c ∈ rest.head?, c ≠ '$' ∧ c ≠ '\x7b' ∧ isNameStart c = false)
      (hrest : Expands rest line vars out) :
      Expands ('$' :: rest) line vars (out.behind ['$'])
  | value {name text rest : List Char} {value : String} {line : Nat} {vars : Bindings}
      {out : Outcome} (hn : isName name = true) (ht : Mentions name text rest)
      (hv : vars.get? (String.ofList name) = some value) (hrest : Expands rest line vars out) :
      Expands text line vars (out.behind value.toList)
  | unset {name text rest : List Char} {line : Nat} {vars : Bindings}
      (hn : isName name = true) (ht : Mentions name text rest)
      (hv : vars.get? (String.ofList name) = none) :
      Expands text line vars ⟨vars, .error (.unset (String.ofList name) line)⟩
  | unused {name word rest : List Char} {colon : Bool} {operator : Operator} {line : Nat}
      {vars : Bindings} {out : Outcome} (hn : isName name = true) (hw : Balanced word)
      (hu : ¬ operator.Uses colon (vars.get? (String.ofList name)))
      (hrest : Expands rest (line + Text.newlineCount word) vars out) :
      Expands (braced (wordBody name colon operator word) ++ rest) line vars
        (out.behind (operator.without (vars.get? (String.ofList name))))
  | inserted {name word rest text : List Char} {colon : Bool} {operator : Operator} {line : Nat}
      {vars inner : Bindings} {out : Outcome} (hn : isName name = true) (hw : Balanced word)
      (ho : operator = .default ∨ operator = .alternative)
      (hu : operator.Uses colon (vars.get? (String.ofList name)))
      (hword : Expands word line vars ⟨inner, .ok text⟩)
      (hrest : Expands rest (line + Text.newlineCount word) inner out) :
      Expands (braced (wordBody name colon operator word) ++ rest) line vars (out.behind text)
  | assigned {name word rest text : List Char} {colon : Bool} {line : Nat}
      {vars inner : Bindings} {out : Outcome} (hn : isName name = true) (hw : Balanced word)
      (hu : Operator.assign.Uses colon (vars.get? (String.ofList name)))
      (hword : Expands word line vars ⟨inner, .ok text⟩)
      (hrest : Expands rest (line + Text.newlineCount word)
        (inner.set (String.ofList name) (String.ofList text)) out) :
      Expands (braced (wordBody name colon .assign word) ++ rest) line vars (out.behind text)
  | required {name word rest text : List Char} {colon : Bool} {line : Nat}
      {vars inner : Bindings} (hn : isName name = true) (hw : Balanced word)
      (hu : Operator.require.Uses colon (vars.get? (String.ofList name)))
      (hword : Expands word line vars ⟨inner, .ok text⟩) :
      Expands (braced (wordBody name colon .require word) ++ rest) line vars
        ⟨inner, .error (.required (String.ofList name) (String.ofList text) line)⟩
  | failed {name word rest : List Char} {colon : Bool} {operator : Operator} {line : Nat}
      {vars inner : Bindings} {e : ExpansionError} (hn : isName name = true) (hw : Balanced word)
      (hu : operator.Uses colon (vars.get? (String.ofList name)))
      (hword : Expands word line vars ⟨inner, .error e⟩) :
      Expands (braced (wordBody name colon operator word) ++ rest) line vars ⟨inner, .error e⟩
  | malformed {body rest : List Char} {line : Nat} {vars : Bindings} (hb : Balanced body)
      (hm : Malformed body) :
      Expands (braced body ++ rest) line vars
        ⟨vars, .error (.invalid (String.ofList body) line)⟩
  | unterminated {rest : List Char} {line : Nat} {vars : Bindings}
      (h : ∀ body after, Balanced body → rest ≠ body ++ '\x7d' :: after) :
      Expands ('$' :: '\x7b' :: rest) line vars ⟨vars, .error (.unterminated line)⟩

variable {name text rest word body input : List Char} {colon : Bool} {operator : Operator}
  {piece : Piece} {line : Nat} {vars : Bindings} {out : Outcome}

theorem behind_nil (out : Outcome) : out.behind [] = out := by
  obtain ⟨vars, result⟩ := out
  cases result <;> rfl

theorem behind_behind (out : Outcome) (u v : List Char) :
    (out.behind v).behind u = out.behind (u ++ v) := by
  obtain ⟨vars, result⟩ := out
  cases result <;> simp [Outcome.behind, Except.map]

/-- Text without a dollar sign stands for itself. -/
theorem Expands.literal {lead : List Char} (hl : '$' ∉ lead)
    (h : Expands rest (line + Text.newlineCount lead) vars out) :
    Expands (lead ++ rest) line vars (out.behind lead) := by
  induction lead generalizing line with
  | nil => rwa [behind_nil]
  | cons c lead ih =>
    obtain ⟨hc, hlead⟩ : '$' ≠ c ∧ '$' ∉ lead := by simpa using hl
    have hcount : line + Text.newlineCount (c :: lead) =
        line + Text.newlineCount [c] + Text.newlineCount lead := by
      rw [← List.singleton_append, Text.newlineCount, List.count_append, Nat.add_assoc]
      rfl
    rw [hcount] at h
    have hcons := Expands.char hc.symm (ih hlead h)
    rwa [behind_behind, List.singleton_append] at hcons

theorem expands_plain (h : '$' ∉ text) (line : Nat) (vars : Bindings) :
    Expands text line vars ⟨vars, .ok text⟩ := by
  have hnil : Expands [] (line + Text.newlineCount text) vars ⟨vars, .ok []⟩ := .nil
  simpa [Outcome.behind, Except.map] using hnil.literal h

/-! ## The piece a text starts with -/

/-- What the first piece of a text expands to. -/
def Piece.outcome (piece : Piece) (line : Nat) (vars : Bindings) : Outcome :=
  match piece.demand line vars with
  | .give text => verbatim vars text
  | .fail e => fail vars e
  | .word word finish => (expand word line vars).finish finish line

theorem expand_nil (line : Nat) (vars : Bindings) : expand [] line vars = verbatim vars [] := by
  rw [expand]
  rfl

theorem expand_of_next (line : Nat) (vars : Bindings)
    (h : Piece.next? input = some (piece, rest)) :
    expand input line vars =
      (piece.outcome line vars).followedBy (expand rest (line + piece.newlines)) := by
  rw [expand]
  split
  · rename_i heq
    rw [h] at heq
    cases heq
  · rename_i p r heq
    rw [h] at heq
    cases heq
    rw [Piece.outcome]
    split <;> simp [*]

theorem followedBy_verbatim (vars : Bindings) (text : List Char) (next : Bindings → Outcome) :
    (verbatim vars text).followedBy next = (next vars).behind text := rfl

theorem followedBy_fail (vars : Bindings) (e : ExpansionError) (next : Bindings → Outcome) :
    (fail vars e).followedBy next = ⟨vars, .error e⟩ := rfl

theorem next?_char {c : Char} (hc : c ≠ '$') :
    Piece.next? (c :: rest) = some (.char c, rest) := by
  simp [Piece.next?, hc]

theorem next?_escaped : Piece.next? ('$' :: '$' :: rest) = some (.char '$', rest) := rfl

theorem next?_lone (h : ∀ c ∈ rest.head?, c ≠ '$' ∧ c ≠ '\x7b' ∧ isNameStart c = false) :
    Piece.next? ('$' :: rest) = some (.char '$', rest) := by
  cases rest with
  | nil => rfl
  | cons c rest =>
    obtain ⟨hd, hb, hn⟩ := h c rfl
    simp [Piece.next?, Piece.afterDollar, hd, hb, hn]

theorem next?_name (hn : isName name = true) (hr : EndsName rest) :
    Piece.next? ('$' :: (name ++ rest)) = some (.name name, rest) := by
  have htake := takeWhile_name hn hr
  have hdrop := dropWhile_name hn hr
  obtain ⟨c, more, rfl, hc, -⟩ := isName_cons hn
  have hd : c ≠ '$' := by rintro rfl; exact absurd hc (by decide)
  have hb : c ≠ '\x7b' := by rintro rfl; exact absurd hc (by decide)
  have hchar := all_of_isName hn c List.mem_cons_self
  simp only [List.cons_append, List.takeWhile_cons, List.dropWhile_cons, hchar, if_true,
    List.cons.injEq, true_and] at htake hdrop
  simp [Piece.next?, Piece.afterDollar, hd, hb, hc, htake, hdrop]

theorem next?_braced (hb : Balanced body) (rest : List Char) :
    Piece.next? (braced body ++ rest) = some (.braced body, rest) := by
  have hclose : closingBrace? 0 (body ++ '\x7d' :: rest) = some (body, rest) :=
    closingBrace?_eq_some_iff.mpr ⟨hb, rfl⟩
  simp [braced, Piece.next?, Piece.afterDollar, hclose]

theorem next?_unterminated (h : ∀ body after, Balanced body → rest ≠ body ++ '\x7d' :: after) :
    Piece.next? ('$' :: '\x7b' :: rest) = some (.unterminated, rest) := by
  have hclose : closingBrace? 0 rest = none := by
    refine Option.eq_none_iff_forall_ne_some.mpr fun ⟨body, after⟩ hs => ?_
    obtain ⟨hb, hr⟩ := closingBrace?_eq_some_iff.mp hs
    exact h body after hb hr
  simp [Piece.next?, Piece.afterDollar, hclose]

/-! ## Rules and expansion -/

theorem countsAsSet_iff (colon : Bool) (value : Option String) :
    countsAsSet colon value = true ↔ Counts colon value := by
  cases value with
  | none => simp [countsAsSet, Counts]
  | some v => cases colon <;> simp [countsAsSet, Counts]

instance (colon : Bool) (value : Option String) : Decidable (Counts colon value) :=
  decidable_of_iff _ (countsAsSet_iff colon value)

instance (operator : Operator) (colon : Bool) (value : Option String) :
    Decidable (operator.Uses colon value) :=
  inferInstanceAs (Decidable (_ ↔ _))

theorem newlines_wordBody (hn : isName name = true) :
    (Piece.braced (wordBody name colon operator word)).newlines = Text.newlineCount word := by
  have hname : name.count '\n' = 0 := by
    rw [List.count_eq_zero]
    intro h
    exact absurd (all_of_isName hn _ h) (by decide)
  have hmark : (operator.mark colon).count '\n' = 0 := by
    cases colon <;> cases operator <;> decide
  simp [Piece.newlines, wordBody, Text.newlineCount, hname, hmark]

theorem newlines_name (hn : isName name = true) : (Piece.braced name).newlines = 0 := by
  rw [Piece.newlines, Text.newlineCount, List.count_eq_zero]
  intro h
  exact absurd (all_of_isName hn _ h) (by decide)

theorem balanced_name (hn : isName name = true) : Balanced name := by
  rw [← List.append_nil name, balanced_append_iff (not_brace_of_name hn)]
  exact .nil

/-- A text that mentions a variable starts with a piece that looks it up. -/
theorem next?_mentions (hn : isName name = true) (ht : Mentions name text rest) :
    ∃ piece, Piece.next? text = some (piece, rest) ∧ piece.newlines = 0 ∧
      ∀ line vars, piece.demand line vars = lookup vars (String.ofList name) line := by
  cases ht with
  | bare hr => exact ⟨.name name, next?_name hn hr, rfl, fun _ _ => rfl⟩
  | braced =>
    exact ⟨.braced name, next?_braced (balanced_name hn) _, newlines_name hn,
      fun _ _ => bracedDemand_name hn⟩

/-- An expression whose word is not used. -/
theorem demand_unused (hn : isName name = true)
    (hu : ¬ operator.Uses colon (vars.get? (String.ofList name))) :
    (Piece.braced (wordBody name colon operator word)).demand line vars =
      .give (operator.without (vars.get? (String.ofList name))) := by
  have hset := countsAsSet_iff colon (vars.get? (String.ofList name))
  rw [Piece.demand, bracedDemand_word hn]
  cases operator <;>
    simp only [Operator.Uses, reduceCtorEq, false_iff, true_iff, ← hset,
      Bool.not_eq_true] at hu <;>
    simp [Operator.demand, Operator.without, hu]

/-- What is done with the word of an operator. -/
def Operator.finish (operator : Operator) (name : String) : Finish :=
  match operator with
  | .default => .insert
  | .assign => .assign name
  | .alternative => .insert
  | .require => .require name

/-- An expression whose word is used. -/
theorem demand_used (hn : isName name = true)
    (hu : operator.Uses colon (vars.get? (String.ofList name))) :
    (Piece.braced (wordBody name colon operator word)).demand line vars =
      .word word (operator.finish (String.ofList name)) := by
  have hset := countsAsSet_iff colon (vars.get? (String.ofList name))
  rw [Piece.demand, bracedDemand_word hn]
  cases operator <;>
    simp only [Operator.Uses, reduceCtorEq, false_iff, true_iff, ← hset,
      Bool.not_eq_true] at hu <;>
    simp [Operator.demand, Operator.finish, hu]

theorem expand_word (hn : isName name = true) (hw : Balanced word) (rest : List Char) :
    expand (braced (wordBody name colon operator word) ++ rest) line vars =
      ((Piece.braced (wordBody name colon operator word)).outcome line vars).followedBy
        (expand rest (line + Text.newlineCount word)) := by
  rw [expand_of_next line vars (next?_braced ((balanced_wordBody_iff hn).mpr hw) rest),
    newlines_wordBody hn]

theorem expand_used (hn : isName name = true) (hw : Balanced word)
    (hu : operator.Uses colon (vars.get? (String.ofList name))) (rest : List Char) :
    expand (braced (wordBody name colon operator word) ++ rest) line vars =
      ((expand word line vars).finish (operator.finish (String.ofList name)) line).followedBy
        (expand rest (line + Text.newlineCount word)) := by
  rw [expand_word hn hw, Piece.outcome, demand_used hn hu]

/-- The rules give what expansion gives. -/
theorem expand_of_expands (h : Expands text line vars out) : expand text line vars = out := by
  induction h with
  | nil => exact expand_nil _ _
  | @char c rest line vars out hc _ ih =>
    have hnl : (Piece.char c).newlines = Text.newlineCount [c] := by
      simp [Piece.newlines, Text.newlineCount, List.count_cons]
    rw [expand_of_next line vars (next?_char hc), hnl]
    simp only [Piece.outcome, Piece.demand, followedBy_verbatim, ih]
  | escaped _ ih =>
    rw [expand_of_next _ _ next?_escaped]
    exact congrArg (Outcome.behind · ['$']) ih
  | lone hr _ ih =>
    rw [expand_of_next _ _ (next?_lone hr)]
    exact congrArg (Outcome.behind · ['$']) ih
  | value hn ht hv _ ih =>
    obtain ⟨piece, hp, hnl, hd⟩ := next?_mentions hn ht
    rw [expand_of_next _ _ hp, hnl]
    simp only [Piece.outcome, hd, lookup, hv, followedBy_verbatim, Nat.add_zero, ih]
  | unset hn ht hv =>
    obtain ⟨piece, hp, hnl, hd⟩ := next?_mentions hn ht
    rw [expand_of_next _ _ hp]
    simp only [Piece.outcome, hd, lookup, hv, followedBy_fail]
  | unused hn hw hu _ ih =>
    rw [expand_word hn hw, Piece.outcome, demand_unused hn hu]
    simp only [followedBy_verbatim, ih]
  | inserted hn hw ho hu _ _ ihword ih =>
    rw [expand_used hn hw hu, ihword]
    obtain rfl | rfl := ho <;> exact congrArg (Outcome.behind · _) ih
  | assigned hn hw hu _ _ ihword ih =>
    rw [expand_used hn hw hu, ihword]
    exact congrArg (Outcome.behind · _) ih
  | required hn hw hu _ ihword =>
    rw [expand_used hn hw hu, ihword]
    rfl
  | failed hn hw hu _ ihword =>
    rw [expand_used hn hw hu, ihword]
    rfl
  | malformed hb hm =>
    rw [expand_of_next _ _ (next?_braced hb _)]
    simp only [Piece.outcome, Piece.demand, bracedDemand_malformed hm, followedBy_fail]
  | unterminated h =>
    rw [expand_of_next _ _ (next?_unterminated h)]
    rfl

/-- An expression in braces expands if its word and what follows it do. -/
theorem exists_expands_braced (hb : Balanced body)
    (hrest : ∀ line vars, ∃ out, Expands rest line vars out)
    (hword : ∀ word : List Char, word.length ≤ body.length →
      ∀ line vars, ∃ out, Expands word line vars out) (line : Nat) (vars : Bindings) :
    ∃ out, Expands (braced body ++ rest) line vars out := by
  obtain hn | ⟨name, colon, operator, word, hn, rfl⟩ | hm := body_cases body
  · cases hv : vars.get? (String.ofList body) with
    | none => exact ⟨_, .unset hn (.braced rest) hv⟩
    | some value =>
      obtain ⟨out, ho⟩ := hrest line vars
      exact ⟨_, .value hn (.braced rest) hv ho⟩
  · have hw := (balanced_wordBody_iff hn).mp hb
    by_cases hu : operator.Uses colon (vars.get? (String.ofList name))
    · obtain ⟨⟨inner, result⟩, ho⟩ := hword word (by simp only [wordBody, List.length_append]; omega) line vars
      cases result with
      | error e => exact ⟨_, .failed hn hw hu ho⟩
      | ok text =>
        have hlater := hrest (line + Text.newlineCount word)
        cases operator with
        | default =>
          obtain ⟨out, hout⟩ := hlater inner
          exact ⟨_, .inserted hn hw (.inl rfl) hu ho hout⟩
        | assign =>
          obtain ⟨out, hout⟩ := hlater (inner.set (String.ofList name) (String.ofList text))
          exact ⟨_, .assigned hn hw hu ho hout⟩
        | alternative =>
          obtain ⟨out, hout⟩ := hlater inner
          exact ⟨_, .inserted hn hw (.inr rfl) hu ho hout⟩
        | require => exact ⟨_, .required hn hw hu ho⟩
    · obtain ⟨out, hout⟩ := hrest (line + Text.newlineCount word) vars
      exact ⟨_, .unused hn hw hu hout⟩
  · exact ⟨_, .malformed hb hm⟩

/-- Every text expands by the rules. -/
theorem exists_expands (text : List Char) (line : Nat) (vars : Bindings) :
    ∃ out, Expands text line vars out := by
  induction hlen : text.length using Nat.strong_induction_on generalizing text line vars with
  | _ n ih =>
  have ih (t : List Char) (h : t.length < text.length) (line : Nat) (vars : Bindings) :
      ∃ out, Expands t line vars out := ih _ (hlen ▸ h) t line vars rfl
  cases text with
  | nil => exact ⟨_, .nil⟩
  | cons c rest =>
    obtain ⟨out, hout⟩ := ih rest (by simp) line vars
    by_cases hc : c = '$'
    · obtain rfl := hc
      cases rest with
      | nil => exact ⟨_, .lone (by simp) hout⟩
      | cons d rest =>
        by_cases hd : d = '$'
        · obtain rfl := hd
          obtain ⟨out, hout⟩ := ih rest (by simp only [List.length_cons]; omega) line vars
          exact ⟨_, .escaped hout⟩
        by_cases hb : d = '\x7b'
        · obtain rfl := hb
          by_cases h : ∀ body after, Balanced body → rest ≠ body ++ '\x7d' :: after
          · exact ⟨_, .unterminated h⟩
          · simp only [not_forall, not_not] at h
            obtain ⟨body, after, hb, rfl⟩ := h
            have htext : '$' :: '\x7b' :: (body ++ '\x7d' :: after) = braced body ++ after := by
              simp [braced]
            rw [htext] at ih ⊢
            refine exists_expands_braced hb (ih after ?_) (fun word hw => ih word ?_) line vars
            all_goals simp only [braced, List.cons_append, List.length_cons, List.length_append]; omega
        by_cases hn : isNameStart d = true
        · have hname := isName_of_start hn rest
          have hsplit : '$' :: d :: rest =
              '$' :: ((d :: rest.takeWhile isNameChar) ++ rest.dropWhile isNameChar) := by simp
          have hm : Mentions (d :: rest.takeWhile isNameChar) ('$' :: d :: rest)
              (rest.dropWhile isNameChar) := hsplit ▸ .bare (endsName_dropWhile rest)
          cases hv : vars.get? (String.ofList (d :: rest.takeWhile isNameChar)) with
          | none => exact ⟨_, .unset hname hm hv⟩
          | some value =>
            have hle := length_dropWhile_le isNameChar rest
            obtain ⟨out, hout⟩ := ih (rest.dropWhile isNameChar) (by simp only [List.length_cons]; omega) line vars
            exact ⟨_, .value hname hm hv hout⟩
        · exact ⟨_, .lone (by simp [hd, hb, hn]) hout⟩
    · obtain ⟨out, hout⟩ := ih rest (by simp) (line + Text.newlineCount [c]) vars
      exact ⟨_, .char hc hout⟩

/-- Expansion is what the rules say, for every text. -/
theorem expands_iff : Expands text line vars out ↔ expand text line vars = out := by
  refine ⟨expand_of_expands, ?_⟩
  rintro rfl
  obtain ⟨out, h⟩ := exists_expands text line vars
  rwa [expand_of_expands h]

theorem map_ofList_inj {a b : Except ExpansionError (List Char)}
    (h : a.map String.ofList = b.map String.ofList) : a = b := by
  have hback (r : Except ExpansionError (List Char)) :
      (r.map String.ofList).map String.toList = r := by
    cases r <;> simp [Except.map]
  rw [← hback a, h, hback b]

theorem substitute_iff {text : String} :
    Expands text.toList 1 vars out ↔
      substitute text vars = (out.vars, out.result.map String.ofList) := by
  rw [expands_iff, substitute, Prod.mk.injEq]
  constructor
  · rintro rfl
    exact ⟨rfl, rfl⟩
  · rintro ⟨hvars, hresult⟩
    obtain ⟨after, result⟩ := out
    exact (Outcome.mk.injEq ..).mpr ⟨hvars, map_ofList_inj hresult⟩

/-- Substitution gives exactly what the rules give for the text, from its first line on; and an
expression whose word is not used gives the same whatever the word is, but for the lines it takes. -/
theorem expansion_follows_table :
    (∀ (text : String) (vars : Bindings) (out : Outcome), Expands text.toList 1 vars out ↔
      substitute text vars = (out.vars, out.result.map String.ofList)) ∧
    ∀ (name word rest : List Char) (colon : Bool) (operator : Operator) (line : Nat)
      (vars : Bindings), isName name = true → Balanced word →
      ¬ operator.Uses colon (vars.get? (String.ofList name)) →
      expand (braced (wordBody name colon operator word) ++ rest) line vars =
        (expand rest (line + Text.newlineCount word) vars).behind
          (operator.without (vars.get? (String.ofList name))) := by
  constructor
  · exact fun _ _ _ => substitute_iff
  · intro name word rest colon operator line vars hn hw hu
    exact expand_of_expands (.unused hn hw hu (expands_iff.mpr rfl))

/-- An assignment inside a word that is assigned itself, and a word that is left alone. -/
theorem assignments_in_words :
    let vars : Bindings := ⟨[("NAME", "lab")]⟩
    let word := ['$', 'B', '$', '\x7b', 'A', '=', 'x', '\x7d', '$', '\x7b', '1', '\x7d']
    substitute "$\x7bA:=$\x7bB=x\x7dy\x7d$B" vars =
      (⟨[("NAME", "lab"), ("B", "x"), ("A", "xy")]⟩, .ok "xyx") ∧
    isName ['N', 'A', 'M', 'E'] = true ∧ Balanced word ∧
    ¬ Operator.default.Uses true (vars.get? (String.ofList ['N', 'A', 'M', 'E'])) ∧
    expand (braced (wordBody ['N', 'A', 'M', 'E'] true .default word) ++ ['!']) 1 vars =
      ⟨vars, .ok ['l', 'a', 'b', '!']⟩ := by
  intro vars word
  have hname : isName ['N', 'A', 'M', 'E'] = true := by decide
  have hword : Balanced word := by decide
  have huses : ¬ Operator.default.Uses true (vars.get? (String.ofList ['N', 'A', 'M', 'E'])) := by
    decide
  have hinner : Expands (braced (wordBody ['B'] false .assign ['x']) ++ ['y']) 1 vars
      (Outcome.behind ⟨⟨[("NAME", "lab"), ("B", "x")]⟩, .ok ['y']⟩ ['x']) :=
    .assigned (by decide) (by decide) (by decide) (expands_plain (by decide) _ _)
      (expands_plain (by decide) _ _)
  have htext : "$\x7bA:=$\x7bB=x\x7dy\x7d$B".toList =
      braced (wordBody ['A'] true .assign
        (braced (wordBody ['B'] false .assign ['x']) ++ ['y'])) ++ ['$', 'B'] := by decide
  have hmention : Mentions ['B'] ['$', 'B'] [] := .bare (by simp [EndsName])
  have hlater : Expands ['$', 'B'] 1 ⟨[("NAME", "lab"), ("B", "x"), ("A", "xy")]⟩
      (Outcome.behind ⟨⟨[("NAME", "lab"), ("B", "x"), ("A", "xy")]⟩, .ok []⟩ "x".toList) :=
    .value (by decide) hmention (by decide) .nil
  have houter : Expands "$\x7bA:=$\x7bB=x\x7dy\x7d$B".toList 1 vars
      (Outcome.behind ⟨⟨[("NAME", "lab"), ("B", "x"), ("A", "xy")]⟩, .ok ['x']⟩ ['x', 'y']) := by
    rw [htext]
    exact .assigned (by decide) (by decide) (by decide) hinner hlater
  refine ⟨(expansion_follows_table.1 _ vars _).mp houter, hname, hword, huses, ?_⟩
  have hrest : expand ['!'] (1 + Text.newlineCount word) vars = ⟨vars, .ok ['!']⟩ :=
    expand_of_expands (expands_plain (by decide) _ _)
  have hvalue : Operator.default.without (vars.get? (String.ofList ['N', 'A', 'M', 'E'])) =
      ['l', 'a', 'b'] := by decide
  rw [expansion_follows_table.2 _ _ _ _ _ _ _ hname hword huses, hrest, hvalue]
  rfl

end ClusterConfig.Variables
