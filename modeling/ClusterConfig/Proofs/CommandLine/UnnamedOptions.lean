import Mathlib
import ClusterConfig.CommandLine.Outcome
import ClusterConfig.Proofs.Patches.Conversion
import ClusterConfig.Proofs.Validation.CheckedValues

/-!
# Options that no word names

An option without a letter is given by a word with its name, and an option without a variable by
words only. So it has no value unless one of the words before `--` names it.
-/

set_option autoImplicit false

namespace ClusterConfig.CommandLine

open Patch (bind_eq_ok)

variable {grammar : Grammar} {given next after : Given} {rule : OptionRule} {left : Option OptionRule}
  {name text word : String} {value : Option String} {words rest : List String}
  {allowed allowed' : OptionRule → Prop}

/-! ## Words -/

/-- A word gives an option by its name, with a value in the same word or without. -/
def IsNamedBy (name word : String) : Prop :=
  word = "--" ++ name ∨ ("--" ++ name ++ "=").toList <+: word.toList

instance (name word : String) : Decidable (IsNamedBy name word) := inferInstanceAs (Decidable (_ ∨ _))

theorem isNamedBy_of_read (h : Word.read word = .options (.long name value)) :
    IsNamedBy name word := by
  unfold Word.read at h
  split at h
  · cases h
  · rename_i chars _ hchars
    split at h
    · rename_i start ending hsplit
      cases h
      refine .inr ⟨ending, ?_⟩
      rw [hchars, (Text.splitFirst?_eq_some_iff.mp hsplit).1]
      simp
    · cases h
      refine .inl (String.toList_inj.mp ?_)
      rw [hchars]
      simp
  · cases h
  · cases h

/-! ## Values -/

/-- Values are put under the names of some options, one after the other. -/
inductive Puts (allowed : OptionRule → Prop) : Given → Given → Prop
  | nothing (given : Given) : Puts allowed given given
  | put {given after : Given} {rule : OptionRule} (values : List String) (h : allowed rule)
      (rest : Puts allowed (given.put rule values) after) : Puts allowed given after

namespace Puts

theorem one (h : allowed rule) (given : Given) (values : List String) :
    Puts allowed given (given.put rule values) := .put values h (.nothing _)

theorem trans (h : Puts allowed given next) (h' : Puts allowed next after) :
    Puts allowed given after := by
  induction h with
  | nothing => exact h'
  | put values ha _ ih => exact .put values ha (ih h')

theorem mono (h : Puts allowed given after) (hsub : ∀ rule, allowed rule → allowed' rule) :
    Puts allowed' given after := by
  induction h with
  | nothing => exact .nothing _
  | put values ha _ ih => exact .put values (hsub _ ha) ih

theorem operands (h : Puts allowed given after) : after.operands = given.operands := by
  induction h with
  | nothing => rfl
  | put _ _ _ ih => exact ih

/-- Values under another name stay. -/
theorem values (h : Puts allowed given after) (hname : ∀ rule, allowed rule → rule.name ≠ name) :
    after.values.get? name = given.values.get? name := by
  induction h with
  | nothing => rfl
  | put values ha _ ih => rw [ih, Given.put, Members.get?_put_other _ _ (hname _ ha).symm]

end Puts

theorem addFlag_puts (h : given.addFlag rule = .ok after) (ha : allowed rule) :
    Puts allowed given after := by
  rw [Given.addFlag] at h
  split at h
  · cases h
  · cases h
    exact .one ha given []

theorem addValue_puts (h : given.addValue rule text = .ok after) (ha : allowed rule) :
    Puts allowed given after := by
  simp only [Given.addValue] at h
  split at h
  · cases h
  · cases h
    exact .one ha given _

/-- Variables stand in for the options that have one. -/
theorem complete_puts {vars : Bindings} {rules : List OptionRule}
    (h : given.complete vars rules = .ok after) :
    Puts (fun rule => rule ∈ rules ∧ rule.variableName ≠ none) given after := by
  induction rules generalizing given with
  | nil =>
    cases h
    exact .nothing _
  | cons rule rest ih =>
    have hrest {given : Given} (h : given.complete vars rest = .ok after) :
        Puts (fun other => other ∈ rule :: rest ∧ other.variableName ≠ none) given after :=
      (ih h).mono fun other ho => ⟨List.mem_cons_of_mem rule ho.1, ho.2⟩
    rw [Given.complete] at h
    split at h
    · rename_i text _ hvariable
      obtain ⟨next, hnext, h⟩ := bind_eq_ok.mp h
      have hrule : rule.variableName ≠ none := fun hnone => by
        rw [hnone] at hvariable
        cases hvariable
      exact (addValue_puts hnext ⟨List.mem_cons_self, hrule⟩).trans (hrest h)
    · exact hrest h

/-! ## Options -/

/-- The options of a grammar that a word may give: by a letter or by the name that it has. -/
def Gives (grammar : Grammar) (word : OptionWord) (rule : OptionRule) : Prop :=
  rule ∈ grammar.options ∧ (rule.letter ≠ none ∨ ∃ value, word = .long rule.name value)

theorem ruleNamed_eq_ok (h : grammar.ruleNamed name = .ok rule) :
    rule ∈ grammar.options ∧ rule.name = name := by
  rw [Grammar.ruleNamed] at h
  cases hfind : grammar.options.find? fun rule => rule.name = name with
  | none =>
    rw [hfind] at h
    cases h
  | some found =>
    rw [hfind] at h
    cases h
    exact ⟨List.mem_of_find?_eq_some hfind, by simpa using List.find?_some hfind⟩

theorem ruleLettered_eq_ok {letter : Char} (h : grammar.ruleLettered letter = .ok rule) :
    rule ∈ grammar.options ∧ rule.letter ≠ none := by
  rw [Grammar.ruleLettered] at h
  cases hfind : grammar.options.find? fun rule => rule.letter = some letter with
  | none =>
    rw [hfind] at h
    cases h
  | some found =>
    rw [hfind] at h
    cases h
    have hletter : rule.letter = some letter := by simpa using List.find?_some hfind
    exact ⟨List.mem_of_find?_eq_some hfind, by simp [hletter]⟩

theorem takeNamed_puts (h : grammar.takeNamed given name value = .ok (after, left)) :
    Puts (Gives grammar (.long name value)) given after ∧
      ∀ rule ∈ left, Gives grammar (.long name value) rule := by
  obtain ⟨rule, hrule, h⟩ := bind_eq_ok.mp h
  obtain ⟨hm, hname⟩ := ruleNamed_eq_ok hrule
  have hgives : Gives grammar (.long name value) rule := ⟨hm, .inr ⟨value, by rw [hname]⟩⟩
  split at h
  · cases h
  · cases h
  · obtain ⟨next, hnext, h⟩ := bind_eq_ok.mp h
    cases h
    exact ⟨addFlag_puts hnext hgives, fun _ hl => by cases hl⟩
  · cases h
  · cases h
    exact ⟨.nothing _, fun other hl => Option.mem_some.mp hl ▸ hgives⟩
  · obtain ⟨next, hnext, h⟩ := bind_eq_ok.mp h
    cases h
    exact ⟨addValue_puts hnext hgives, fun _ hl => by cases hl⟩

theorem takeLetters_puts {letters : List Char} (option : OptionWord)
    (h : grammar.takeLetters given letters = .ok (after, left)) :
    Puts (Gives grammar option) given after ∧ ∀ rule ∈ left, Gives grammar option rule := by
  induction letters generalizing given with
  | nil =>
    cases h
    exact ⟨.nothing _, fun _ hl => by cases hl⟩
  | cons letter rest ih =>
    rw [Grammar.takeLetters] at h
    obtain ⟨rule, hrule, h⟩ := bind_eq_ok.mp h
    obtain ⟨hm, hletter⟩ := ruleLettered_eq_ok hrule
    have hgives : Gives grammar option rule := ⟨hm, .inl hletter⟩
    split at h
    · cases h
    · obtain ⟨next, hnext, h⟩ := bind_eq_ok.mp h
      obtain ⟨hputs, hleft⟩ := ih h
      exact ⟨(addFlag_puts hnext hgives).trans hputs, hleft⟩
    · split at h
      · cases h
        exact ⟨.nothing _, fun other hl => Option.mem_some.mp hl ▸ hgives⟩
      · obtain ⟨next, hnext, h⟩ := bind_eq_ok.mp h
        cases h
        exact ⟨addValue_puts hnext hgives, fun _ hl => by cases hl⟩

theorem takeOptions_puts {option : OptionWord}
    (h : grammar.takeOptions given option = .ok (after, left)) :
    Puts (Gives grammar option) given after ∧ ∀ rule ∈ left, Gives grammar option rule := by
  cases option with
  | long name value => exact takeNamed_puts h
  | letters letters => exact takeLetters_puts _ h

/-! ## Reading -/

theorem takeOperand_values {accepts : List (String → Bool)}
    (h : Grammar.takeOperand accepts given text = .ok after) : after.values = given.values := by
  rw [Grammar.takeOperand] at h
  split at h
  · split at h
    · cases h
      rfl
    · cases h
  · cases h

/-- What the first word of a command line is read as: an operand, the name of a command, the end of
the options, an option, or an option with its value in the next word. -/
theorem read_cases (h : grammar.read given (word :: rest) = .ok after) :
    (∃ text, Word.read word = .plain text ∧ grammar.operands = .command ∧
      after = { given with operands := [text], further := rest }) ∨
    (∃ text next, Word.read word = .plain text ∧ grammar.operands ≠ .command ∧
      next.values = given.values ∧ grammar.read next rest = .ok after) ∨
    (Word.read word = .separator ∧ after = { given with further := rest }) ∨
    (∃ option next, Word.read word = .options option ∧ Puts (Gives grammar option) given next ∧
      grammar.read next rest = .ok after) ∨
    ∃ option next value more, Word.read word = .options option ∧ rest = value :: more ∧
      (∃ text, Word.read value = .plain text) ∧ Puts (Gives grammar option) given next ∧
      grammar.read next more = .ok after := by
  rw [Grammar.read] at h
  split at h
  · rename_i text hword
    split at h
    · rename_i hoperands
      exact .inl ⟨text, hword, hoperands, (Except.ok.inj h).symm⟩
    · rename_i accepts hoperands
      obtain ⟨next, hnext, h⟩ := bind_eq_ok.mp h
      exact .inr (.inl ⟨text, next, hword, by simp [hoperands], takeOperand_values hnext, h⟩)
  · rename_i hword
    split at h
    · exact .inr (.inr (.inl ⟨hword, (Except.ok.inj h).symm⟩))
    · cases h
  · rename_i option hword
    split at h
    · cases h
    · rename_i next htake
      exact .inr (.inr (.inr (.inl ⟨option, next, hword, (takeOptions_puts htake).1, h⟩)))
    · rename_i next rule htake
      obtain ⟨hputs, hleft⟩ := takeOptions_puts htake
      split at h
      · cases h
      · rename_i value more
        split at h
        · rename_i text hvalue
          obtain ⟨last, hlast, h⟩ := bind_eq_ok.mp h
          exact .inr (.inr (.inr (.inr ⟨option, last, value, more, hword, rfl, ⟨text, hvalue⟩,
            hputs.trans (addValue_puts hlast (hleft _ rfl)), h⟩)))
        · cases h

/-- No word before `--` gives an option by its name. -/
def Unnamed (name : String) (words : List String) : Prop :=
  ∀ word ∈ words.takeWhile (· ≠ "--"), ¬IsNamedBy name word

instance (name : String) (words : List String) : Decidable (Unnamed name words) :=
  inferInstanceAs (Decidable (∀ word ∈ words.takeWhile (· ≠ "--"), ¬IsNamedBy name word))

theorem ne_separator_of_read {kind : Word} (h : Word.read word = kind) (hk : kind ≠ .separator) :
    word ≠ "--" := by
  rintro rfl
  exact hk h.symm

theorem unnamed_cons (hword : word ≠ "--") :
    Unnamed name (word :: rest) ↔ ¬IsNamedBy name word ∧ Unnamed name rest := by
  rw [Unnamed, List.takeWhile_cons_of_pos (by simpa using hword), List.forall_mem_cons]
  rfl

theorem unnamed_append {before : List String} (hbefore : "--" ∉ before)
    (h : Unnamed name (before ++ rest)) : Unnamed name rest := by
  induction before with
  | nil => exact h
  | cons word before ih =>
    obtain ⟨hword, hmore⟩ := not_or.mp (fun hm => hbefore (List.mem_cons.mpr hm))
    exact ih hmore ((unnamed_cons (Ne.symm hword)).mp h).2

/-- An option without a letter that no word names has the values that it had. -/
theorem read_values (hletter : ∀ rule ∈ grammar.options, rule.name = name → rule.letter = none)
    (h : grammar.read given words = .ok after) (hwords : Unnamed name words) :
    after.values.get? name = given.values.get? name := by
  have hoption {word : String} {option : OptionWord} {given next : Given}
      (hword : Word.read word = .options option) (hnamed : ¬IsNamedBy name word)
      (hputs : Puts (Gives grammar option) given next) :
      next.values.get? name = given.values.get? name := by
    refine hputs.values fun rule hgives hname => ?_
    obtain hl | ⟨value, rfl⟩ := hgives.2
    · exact hl (hletter rule hgives.1 hname)
    · exact hnamed (isNamedBy_of_read (hname ▸ hword))
  induction hlength : words.length using Nat.strong_induction_on generalizing given words with
  | _ length ih =>
    cases words with
    | nil =>
      cases h
      rfl
    | cons word rest =>
      obtain ⟨text, hword, -, rfl⟩ | ⟨text, next, hword, -, hvalues, hread⟩ |
        ⟨hword, rfl⟩ | ⟨option, next, hword, hputs, hread⟩ |
        ⟨option, next, value, more, hword, rfl, ⟨text, hvalue⟩, hputs, hread⟩ := read_cases h
      · rfl
      · obtain ⟨-, hrest⟩ := (unnamed_cons (ne_separator_of_read hword (by simp))).mp hwords
        rw [ih _ (by simp at hlength; omega) hread hrest rfl, hvalues]
      · rfl
      · obtain ⟨hnamed, hrest⟩ := (unnamed_cons (ne_separator_of_read hword (by simp))).mp hwords
        rw [ih _ (by simp at hlength; omega) hread hrest rfl, hoption hword hnamed hputs]
      · obtain ⟨hnamed, hrest⟩ := (unnamed_cons (ne_separator_of_read hword (by simp))).mp hwords
        obtain ⟨-, hmore⟩ := (unnamed_cons (ne_separator_of_read hvalue (by simp))).mp hrest
        rw [ih _ (by simp at hlength; omega) hread hmore rfl, hoption hword hnamed hputs]

/-- The words of a command are those behind its name, with no `--` before it. -/
theorem read_command (hcommand : grammar.operands = .command)
    (h : grammar.read given words = .ok after) :
    after.operands = given.operands ∨
      ∃ before, "--" ∉ before ∧ words = before ++ after.further := by
  induction hlength : words.length using Nat.strong_induction_on generalizing given words with
  | _ length ih =>
    cases words with
    | nil =>
      cases h
      exact .inl rfl
    | cons word rest =>
      obtain ⟨text, hword, -, rfl⟩ | ⟨text, next, -, hlisted, -, -⟩ | ⟨-, rfl⟩ |
        ⟨option, next, hword, hputs, hread⟩ |
        ⟨option, next, value, more, hword, rfl, ⟨text, hvalue⟩, hputs, hread⟩ := read_cases h
      · have hne := ne_separator_of_read hword (by simp)
        exact .inr ⟨[word], by simpa using Ne.symm hne, rfl⟩
      · exact absurd hcommand hlisted
      · exact .inl rfl
      · have hne := ne_separator_of_read hword (by simp)
        obtain hsame | ⟨before, hbefore, hrest⟩ := ih _ (by simp at hlength; omega) hread rfl
        · exact .inl (hsame.trans hputs.operands)
        · exact .inr ⟨word :: before, by simp [Ne.symm hne, hbefore], by rw [hrest]; rfl⟩
      · have hne := ne_separator_of_read hword (by simp)
        have hvalue := ne_separator_of_read hvalue (by simp)
        obtain hsame | ⟨before, hbefore, hrest⟩ := ih _ (by simp at hlength; omega) hread rfl
        · exact .inl (hsame.trans hputs.operands)
        · exact .inr ⟨word :: value :: before, by simp [Ne.symm hne, Ne.symm hvalue, hbefore],
            by rw [hrest]; rfl⟩

/-! ## The client configuration -/

theorem elim_misuse_eq_ok {α : Type} {found : Option α} {a : α}
    (h : found.elim (Except.error Stop.misuse) Except.ok = .ok a) : found = some a := by
  cases found with
  | none => cases h
  | some b => rw [Except.ok.inj h]

/-- No variable stands in for the client configuration. -/
theorem value?_clientConfig {vars : Bindings}
    (h : TaskName.printCommands.grammar.read {} words = .ok given)
    (hcomplete : given.complete vars TaskName.printCommands.rules = .ok after)
    (hwords : Unnamed OptionRule.clientConfig.name words) : after.value? .clientConfig = none := by
  have hvariable : ∀ rule ∈ TaskName.printCommands.rules, rule.variableName ≠ none →
      rule.name ≠ OptionRule.clientConfig.name := by decide
  have hcompleted := (complete_puts hcomplete).values fun rule hr => hvariable rule hr.1 hr.2
  have hread := read_values (by decide) h hwords
  rw [Given.value?, Given.all, hcompleted, hread]
  rfl

theorem ofWords_unnamed {vars : Bindings} {task : TaskName} {options : PrintOptions}
    (h : Task.ofWords task words vars = .ok (.printCommands options))
    (hwords : Unnamed OptionRule.clientConfig.name words) :
    options.clientConfig = Path.join options.outDirectory ClientConfig.fileName := by
  obtain ⟨given, hgiven, h⟩ := bind_eq_ok.mp h
  obtain ⟨after, hafter, h⟩ := bind_eq_ok.mp h
  cases task with
  | generate => cases h
  | validate => cases h
  | printCommands =>
    obtain ⟨kind, -, hoptions⟩ := Option.bind_eq_some_iff.mp (elim_misuse_eq_ok h)
    cases hoptions
    simp only [value?_clientConfig hgiven hafter hwords, Option.getD_none]

/-- Commands for which no client configuration is named use the one in the output directory. -/
theorem clientConfig_unnamed {vars : Bindings} {options : PrintOptions}
    (h : Request.ofWords? words vars = some (.perform (.printCommands options)))
    (hwords : Unnamed "talosconfig" words) :
    options.clientConfig = Path.join options.outDirectory ClientConfig.fileName := by
  have hread : Request.read words vars = .ok (.printCommands options) := by
    rw [Request.ofWords?] at h
    split at h
    · cases h
      assumption
    all_goals cases h
  obtain ⟨given, hgiven, hread⟩ := bind_eq_ok.mp hread
  split at hread
  · cases hread
  · rename_i command _ hoperands
    obtain ⟨task, htask, hread⟩ := bind_eq_ok.mp hread
    obtain ⟨-, -, hread⟩ := bind_eq_ok.mp hread
    obtain rfl : task = .printCommands options := Except.ok.inj hread
    -- the words of the command stand at the end of all words
    have hcommand : Unnamed "talosconfig" given.further := by
      obtain hsame | ⟨before, hbefore, rfl⟩ := read_command rfl hgiven
      · rw [hoperands] at hsame
        cases hsame
      · exact unnamed_append hbefore hwords
    rw [Request.ofCommand] at htask
    split at htask
    · cases htask
    · split at htask
      · exact ofWords_unnamed htask hcommand
      · cases htask

end ClusterConfig.CommandLine
