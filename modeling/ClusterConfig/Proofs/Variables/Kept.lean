import ClusterConfig.Documents.Reading
import ClusterConfig.Proofs.Variables.Table

/-!
# Variables that keep their values

Whatever a text holds and however its expansion ends, a variable that is set stays set, and only the
value of an empty one can change, where the text assigns it with a colon. Hence a value that was
there before the first document wins over the defaults of all documents.
-/

set_option autoImplicit false

namespace ClusterConfig.Variables

variable {name text rest word : List Char} {colon : Bool} {operator : Operator} {line : Nat}
  {vars mid after : Bindings} {out : Outcome}

/-- The text holds an expression that assigns the variable where it is empty. -/
def AssignsEmpty (text : List Char) (name : String) : Prop :=
  '$' :: '\x7b' :: (name.toList ++ [':', '=']) <:+: text

/-- What the expansion of a text may do to the variables that are set. -/
def Keeps (text : List Char) (vars after : Bindings) : Prop :=
  ∀ name value, vars.get? name = some value →
    after.get? name = some value ∨
      value = "" ∧ (after.get? name).isSome ∧ AssignsEmpty text name

theorem Keeps.refl (text : List Char) (vars : Bindings) : Keeps text vars vars :=
  fun _ _ h => .inl h

theorem Keeps.mono {part : List Char} (h : Keeps part vars after) (hp : part <:+: text) :
    Keeps text vars after := by
  intro name value hv
  obtain hkept | ⟨rfl, hsome, hassigns⟩ := h name value hv
  · exact .inl hkept
  · exact .inr ⟨rfl, hsome, hassigns.trans hp⟩

theorem Keeps.trans (h : Keeps text vars mid) (h' : Keeps text mid after) :
    Keeps text vars after := by
  intro name value hv
  obtain hkept | ⟨rfl, hsome, hassigns⟩ := h name value hv
  · exact h' name value hkept
  · obtain ⟨v, hmid⟩ := Option.isSome_iff_exists.mp hsome
    refine .inr ⟨rfl, ?_, hassigns⟩
    obtain hlater | ⟨-, hlater, -⟩ := h' name v hmid
    · simp [hlater]
    · exact hlater

theorem word_isInfix (name word rest : List Char) (colon : Bool) (operator : Operator) :
    word <:+: braced (wordBody name colon operator word) ++ rest :=
  ⟨'$' :: '\x7b' :: (name ++ operator.mark colon), '\x7d' :: rest, by simp [braced, wordBody]⟩

theorem rest_isInfix (body rest : List Char) : rest <:+: braced body ++ rest :=
  (List.suffix_append _ rest).isInfix

theorem Mentions.rest_isInfix (h : Mentions name text rest) : rest <:+: text := by
  cases h with
  | bare _ => exact ⟨'$' :: name, [], by simp⟩
  | braced => exact Variables.rest_isInfix name rest

theorem cons_isInfix (c : Char) (rest : List Char) : rest <:+: c :: rest :=
  (List.suffix_cons c rest).isInfix

/-- An assignment sets a variable that was not set, or one that was empty and has a colon. -/
theorem Keeps.assign (hu : Operator.assign.Uses colon (vars.get? (String.ofList name)))
    (h : Keeps word vars after) (value : String) :
    Keeps (braced (wordBody name colon .assign word) ++ rest) vars
      (after.set (String.ofList name) value) := by
  intro other v hv
  by_cases ho : other = String.ofList name
  · subst ho
    have hcounts : ¬ Counts colon (some v) := by
      rw [hv] at hu
      simpa [Operator.Uses] using hu
    have hempty : colon = true ∧ v = "" := by
      by_contra hne
      exact hcounts ⟨v, rfl, fun hc hv => hne ⟨hc, hv⟩⟩
    obtain ⟨rfl, rfl⟩ := hempty
    refine .inr ⟨rfl, by simp [Bindings.get?_set_same], [], word ++ '\x7d' :: rest, ?_⟩
    simp [braced, wordBody, Operator.mark, Operator.sign]
  · rw [Bindings.get?_set_other _ _ ho]
    exact h.mono (word_isInfix name word rest colon .assign) other v hv

/-- Expansion keeps the variables, on every way it may end. -/
theorem keeps_of_expands (h : Expands text line vars out) : Keeps text vars out.vars := by
  induction h with
  | nil => exact .refl _ _
  | char _ _ ih => exact ih.mono (cons_isInfix _ _)
  | escaped _ ih => exact ih.mono ((cons_isInfix _ _).trans (cons_isInfix _ _))
  | lone _ _ ih => exact ih.mono (cons_isInfix _ _)
  | value _ ht _ _ ih => exact ih.mono ht.rest_isInfix
  | unset => exact .refl _ _
  | unused _ _ _ _ ih => exact ih.mono (rest_isInfix _ _)
  | inserted _ _ _ _ _ _ ihword ih =>
    exact (ihword.mono (word_isInfix ..)).trans (ih.mono (rest_isInfix _ _))
  | assigned _ _ hu _ _ ihword ih =>
    exact (Keeps.assign hu ihword _).trans (ih.mono (rest_isInfix _ _))
  | required _ _ _ _ ihword => exact ihword.mono (word_isInfix ..)
  | failed _ _ _ _ ihword => exact ihword.mono (word_isInfix ..)
  | malformed => exact .refl _ _
  | unterminated => exact .refl _ _

theorem keeps_substitute (text : String) (vars : Bindings) :
    Keeps text.toList vars (substitute text vars).1 :=
  keeps_of_expands (expands_iff.mpr rfl)

/-- A value that is not empty is kept. -/
theorem Keeps.get? (h : Keeps text vars after) {name value : String}
    (hv : vars.get? name = some value) (hne : value ≠ "") : after.get? name = some value := by
  obtain hkept | ⟨hempty, -⟩ := h name value hv
  · exact hkept
  · exact absurd hempty hne

/-! ## Documents read one after the other -/

theorem keeps_readBytes (decrypt : Encryption.Decryptor) (path : String) (content : ByteArray)
    (vars : Bindings) :
    ∃ text, Keeps text vars (Documents.readBytes decrypt path content vars).1 := by
  rw [Documents.readBytes]
  split
  · exact ⟨[], .refl _ _⟩
  · split
    · exact ⟨[], .refl _ _⟩
    · exact ⟨_, keeps_substitute _ vars⟩

theorem keeps_read (source : Documents.Source) (path : String) (vars : Bindings) :
    ∃ text, Keeps text vars (Documents.read source path vars).1 := by
  rw [Documents.read]
  split
  · exact ⟨[], .refl _ _⟩
  · exact keeps_readBytes _ _ _ _

/-- The variables after documents were read one after the other, whether they could be or not. -/
def varsAfter (source : Documents.Source) : List String → Bindings → Bindings
  | [], vars => vars
  | path :: paths, vars => varsAfter source paths (Documents.read source path vars).1

theorem varsAfter_get? (source : Documents.Source) (paths : List String) {name value : String}
    (hv : vars.get? name = some value) (hne : value ≠ "") :
    (varsAfter source paths vars).get? name = some value := by
  induction paths generalizing vars with
  | nil => exact hv
  | cons path paths ih =>
    obtain ⟨text, hkeeps⟩ := keeps_read source path vars
    exact ih (hkeeps.get? hv hne)

/-- Substitution keeps every value that is not empty and removes no variable; an empty value it
changes only if the text assigns the variable with a colon. So a value that is set before documents
are read is there after them, and a default for it gives the value and leaves the variables alone. -/
theorem set_values_win (vars : Bindings) :
    (∀ text : String, let after := (substitute text vars).1
      (∀ name value, vars.get? name = some value → value ≠ "" →
        after.get? name = some value) ∧
      (∀ name, (vars.get? name).isSome → (after.get? name).isSome) ∧
      ∀ name, vars.get? name = some "" → after.get? name ≠ some "" →
        AssignsEmpty text.toList name) ∧
    ∀ (source : Documents.Source) (paths : List String) (name : List Char) (value : String),
      isName name = true → vars.get? (String.ofList name) = some value → value ≠ "" →
      let later := varsAfter source paths vars
      later.get? (String.ofList name) = some value ∧
      ∀ word rest line, Balanced word →
        expand (braced (wordBody name true .assign word) ++ rest) line later =
          (expand rest (line + Text.newlineCount word) later).behind value.toList := by
  constructor
  · intro text
    have hkeeps := keeps_substitute text vars
    refine ⟨fun name value hv hne => hkeeps.get? hv hne, fun name hs => ?_, fun name hv hne => ?_⟩
    · obtain ⟨value, hv⟩ := Option.isSome_iff_exists.mp hs
      obtain hkept | ⟨-, hsome, -⟩ := hkeeps name value hv
      · simp [hkept]
      · exact hsome
    · obtain hkept | ⟨-, -, hassigns⟩ := hkeeps name "" hv
      · exact absurd hkept hne
      · exact hassigns
  · intro source paths name value hn hv hne later
    have hlater : later.get? (String.ofList name) = some value := varsAfter_get? source paths hv hne
    refine ⟨hlater, fun word rest line hw => ?_⟩
    have huses : ¬ Operator.assign.Uses true (later.get? (String.ofList name)) := by
      simp [Operator.Uses, Counts, hlater, hne]
    have hrest : Expands rest (line + Text.newlineCount word) later _ := expands_iff.mpr rfl
    rw [expand_of_expands (.unused hn hw huses hrest), hlater]
    rfl

/-- A value and an empty value, each with a default: the value stays, and the empty one is assigned
where the text says so. A document that cannot be read changes nothing. -/
theorem default_of_empty_value :
    let vars : Bindings := ⟨[("A", "x"), ("E", "")]⟩
    let text := "$\x7bA:=y\x7d$\x7bE:=z\x7d"
    let after : Bindings := ⟨[("A", "x"), ("E", "z")]⟩
    let source : Documents.Source := ⟨{}, Encryption.Decryptor.unavailable⟩
    substitute text vars = (after, .ok "xz") ∧
    vars.get? "A" = some "x" ∧ "x" ≠ "" ∧ (substitute text vars).1.get? "A" = some "x" ∧
    vars.get? "E" = some "" ∧ after.get? "E" ≠ some "" ∧ AssignsEmpty text.toList "E" ∧
    isName ['A'] = true ∧ Balanced ['y'] ∧
    expand (braced (wordBody ['A'] true .assign ['y']) ++ []) 1 (varsAfter source ["c"] vars) =
      ⟨vars, .ok ['x']⟩ := by
  intro vars text after source
  have htext : text.toList = braced (wordBody ['A'] true .assign ['y']) ++
      (braced (wordBody ['E'] true .assign ['z']) ++ []) := by decide
  have hsub : substitute text vars = (after, .ok "xz") := by
    have hsecond : Expands (braced (wordBody ['E'] true .assign ['z']) ++ []) 1 vars
        (Outcome.behind ⟨after, .ok []⟩ ['z']) :=
      .assigned (by decide) (by decide) (by decide) (expands_plain (by decide) _ _) .nil
    have hfirst : Expands (braced (wordBody ['A'] true .assign ['y']) ++
        (braced (wordBody ['E'] true .assign ['z']) ++ [])) 1 vars
        (Outcome.behind ⟨after, .ok ['z']⟩
          (Operator.assign.without (vars.get? (String.ofList ['A'])))) :=
      .unused (by decide) (by decide) (by decide) hsecond
    have hx : Operator.assign.without (vars.get? (String.ofList ['A'])) = ['x'] := by decide
    rw [hx, ← htext] at hfirst
    exact substitute_iff.mp hfirst
  have ha : vars.get? "A" = some "x" := by decide
  have he : vars.get? "E" = some "" := by decide
  have hafter : after.get? "E" ≠ some "" := by decide
  have hname : isName ['A'] = true := by decide
  have hword : Balanced ['y'] := by decide
  have hkept := (set_values_win vars).1 text
  have hlater := (set_values_win vars).2 source ["c"] ['A'] "x" hname ha (by decide)
  refine ⟨hsub, ha, by decide, hkept.1 "A" "x" ha (by decide), he, hafter,
    hkept.2.2 "E" he (hsub ▸ hafter), hname, hword, ?_⟩
  have hread : varsAfter source ["c"] vars = vars := by rfl
  rw [hlater.2 ['y'] [] 1 hword, hread, expand_nil]
  rfl

end ClusterConfig.Variables
