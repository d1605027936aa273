import ClusterConfig.Text.Lines
import ClusterConfig.Text.Quoted
import ClusterConfig.Variables.Bindings

/-!
# Expansion of variables in text

`$NAME` and `${NAME}` stand for a value, `$$` for a dollar sign. `${NAME-word}`, `=`, `+` and `?`
act on whether the variable is set, and with a colon in front on whether it is set and not empty.
A word is expanded only where it is used, and assignments are seen by what follows. Values are
inserted as they are.
-/

set_option autoImplicit false

namespace ClusterConfig

/-- Why a text could not be expanded, with the line of the expression. -/
inductive ExpansionError where
  | unset (name : String) (line : Nat)
  | required (name message : String) (line : Nat)
  | unterminated (line : Nat)
  | invalid (expression : String) (line : Nat)
deriving DecidableEq

namespace ExpansionError

def message : ExpansionError → String
  | .unset name line =>
    "variable " ++ Text.quoted name ++ " on line " ++ toString line ++ " is not set"
  | .required name message line =>
    "variable " ++ Text.quoted name ++ " on line " ++ toString line ++ " is required: " ++ message
  | .unterminated line => "unterminated variable expression on line " ++ toString line
  | .invalid expression line =>
    "invalid variable expression \"$\x7b" ++ expression ++ "\x7d\" on line " ++ toString line

def line : ExpansionError → Nat
  | .unset _ line => line
  | .required _ _ line => line
  | .unterminated line => line
  | .invalid _ line => line

end ExpansionError

namespace Variables

def isNameStart (c : Char) : Bool := c.isAlpha || c = '_'

def isNameChar (c : Char) : Bool := c.isAlphanum || c = '_'

def isName (name : List Char) : Bool :=
  match name with
  | [] => false
  | c :: _ => isNameStart c && name.all isNameChar

/-- The body up to the brace that closes it and the text after that brace. -/
def closingBrace? (depth : Nat) : List Char → Option (List Char × List Char)
  | [] => none
  | c :: rest =>
    if c = '\x7d' && depth = 0 then some ([], rest)
    else
      let depth := if c = '\x7d' then depth - 1 else if c = '\x7b' then depth + 1 else depth
      (closingBrace? depth rest).map fun split => (c :: split.1, split.2)

theorem length_closingBrace {depth : Nat} {s body rest : List Char}
    (h : closingBrace? depth s = some (body, rest)) : body.length + rest.length < s.length := by
  induction s generalizing depth body with
  | nil => simp [closingBrace?] at h
  | cons c s ih =>
    rw [closingBrace?] at h
    split at h
    · simp at h; obtain ⟨rfl, rfl⟩ := h; simp
    · simp only [Option.map_eq_some_iff] at h
      obtain ⟨split, hs, heq⟩ := h
      cases heq
      have := ih hs
      simp; omega

theorem length_dropWhile_le (p : Char → Bool) (s : List Char) :
    (s.dropWhile p).length ≤ s.length :=
  (List.dropWhile_suffix p).length_le

/-- What a text is made of: characters that stand for themselves, names and expressions. -/
inductive Piece where
  | char (c : Char)
  | name (name : List Char)
  | braced (body : List Char)
  | unterminated

namespace Piece

def newlines : Piece → Nat
  | .char c => if c = '\n' then 1 else 0
  | .braced body => Text.newlineCount body
  | _ => 0

/-- The piece after a dollar sign. -/
def afterDollar : List Char → Piece × List Char
  | [] => (.char '$', [])
  | c :: rest =>
    if c = '$' then (.char '$', rest)
    else if c = '\x7b' then
      match closingBrace? 0 rest with
      | none => (.unterminated, rest)
      | some (body, after) => (.braced body, after)
    else if isNameStart c then
      (.name (c :: rest.takeWhile isNameChar), rest.dropWhile isNameChar)
    else (.char '$', c :: rest)

/-- The first piece of a text and what follows it. -/
def next? : List Char → Option (Piece × List Char)
  | [] => none
  | c :: rest => some (if c = '$' then afterDollar rest else (.char c, rest))

def body : Piece → List Char
  | .braced body => body
  | _ => []

theorem length_afterDollar (s : List Char) :
    (afterDollar s).1.body.length + (afterDollar s).2.length ≤ s.length := by
  cases s with
  | nil => simp [afterDollar, body]
  | cons c rest =>
    have hd := length_dropWhile_le isNameChar rest
    simp only [afterDollar]
    split
    · simp [body]
    · split
      · split
        · simp [body]
        · rename_i h
          have := length_closingBrace h
          simp [body]; omega
      · split <;> simp [body]; omega

theorem length_next {s rest : List Char} {piece : Piece} (h : next? s = some (piece, rest)) :
    piece.body.length + rest.length < s.length := by
  cases s with
  | nil => simp [next?] at h
  | cons c s =>
    have := length_afterDollar s
    simp only [next?, Option.some.injEq] at h
    split at h
    · rw [h] at this; simp only at this; simp; omega
    · cases h; simp [body]

end Piece

/-- What an expression does with its word. -/
inductive Operator where
  | default
  | assign
  | alternative
  | require
deriving DecidableEq

def Operator.ofChar? : Char → Option Operator
  | '-' => some .default
  | '=' => some .assign
  | '+' => some .alternative
  | '?' => some .require
  | _ => none

/-- What stands between braces after the name. -/
inductive Usage where
  | value
  | word (colon : Bool) (operator : Operator) (word : List Char)
  | malformed

def wordUsage (colon : Bool) : List Char → Usage
  | [] => .malformed
  | c :: word =>
    match Operator.ofChar? c with
    | some operator => .word colon operator word
    | none => .malformed

def usage : List Char → Usage
  | [] => .value
  | c :: rest => if c = ':' then wordUsage true rest else wordUsage false (c :: rest)

theorem length_wordUsage {s word : List Char} {colon marked : Bool} {operator : Operator}
    (h : wordUsage marked s = .word colon operator word) : word.length < s.length := by
  cases s with
  | nil => simp [wordUsage] at h
  | cons c rest =>
    simp only [wordUsage] at h
    split at h <;> simp at h
    simp [h]

theorem length_usage {s word : List Char} {colon : Bool} {operator : Operator}
    (h : usage s = .word colon operator word) : word.length < s.length := by
  cases s with
  | nil => simp [usage] at h
  | cons c rest =>
    simp only [usage] at h
    split at h
    · have := length_wordUsage h; simp; omega
    · exact length_wordUsage h

/-- The variables after an expansion and the expanded text or the error. -/
structure Outcome where
  vars : Bindings
  result : Except ExpansionError (List Char)

/-- Continues after a text that was expanded. -/
def Outcome.followedBy (first : Outcome) (next : Bindings → Outcome) : Outcome :=
  match first.result with
  | .error e => ⟨first.vars, .error e⟩
  | .ok text =>
    let second := next first.vars
    ⟨second.vars, second.result.map (text ++ ·)⟩

def verbatim (vars : Bindings) (text : List Char) : Outcome := ⟨vars, .ok text⟩

/-- Whether a value counts as set; with a colon an empty one does not. -/
def countsAsSet (colon : Bool) : Option String → Bool
  | none => false
  | some value => !(colon && value.isEmpty)

/-- What becomes of the expansion of a word. -/
inductive Finish where
  | insert
  | assign (name : String)
  | require (name : String)

/-- What is to be done for a piece: insert a text, fail, or expand a word first. -/
inductive Demand where
  | give (text : List Char)
  | fail (e : ExpansionError)
  | word (word : List Char) (finish : Finish)

def Demand.body : Demand → List Char
  | .word text _ => text
  | _ => []

def fail (vars : Bindings) (e : ExpansionError) : Outcome := ⟨vars, .error e⟩

/-- The end of an expression on `line` whose word expands to `text`. -/
def Finish.apply (finish : Finish) (line : Nat) (vars : Bindings) (text : List Char) : Outcome :=
  match finish with
  | .insert => verbatim vars text
  | .assign name => verbatim (vars.set name (String.ofList text)) text
  | .require name => fail vars (.required name (String.ofList text) line)

/-- The demand of an operator with its word, for a variable with the given value. -/
def Operator.demand (operator : Operator) (name : String) (isSet : Bool) (value : String)
    (word : List Char) : Demand :=
  match operator with
  | .default => if isSet then .give value.toList else .word word .insert
  | .assign => if isSet then .give value.toList else .word word (.assign name)
  | .alternative => if isSet then .word word .insert else .give []
  | .require => if isSet then .give value.toList else .word word (.require name)

/-- A variable that has to be set. -/
def lookup (vars : Bindings) (name : String) (line : Nat) : Demand :=
  match vars.get? name with
  | none => .fail (.unset name line)
  | some value => .give value.toList

/-- The demand of what stands between braces. -/
def bracedDemand (body : List Char) (line : Nat) (vars : Bindings) : Demand :=
  let name := body.takeWhile isNameChar
  let invalid := Demand.fail (.invalid (String.ofList body) line)
  if isName name then
    let name := String.ofList name
    match usage (body.dropWhile isNameChar) with
    | .value => lookup vars name line
    | .malformed => invalid
    | .word colon operator word =>
      let value := vars.get? name
      operator.demand name (countsAsSet colon value) (value.getD "") word
  else invalid

def Piece.demand (line : Nat) (vars : Bindings) : Piece → Demand
  | .char c => .give [c]
  | .name chars => lookup vars (String.ofList chars) line
  | .braced body => bracedDemand body line vars
  | .unterminated => .fail (.unterminated line)

theorem body_lookup (vars : Bindings) (name : String) (line : Nat) :
    (lookup vars name line).body = [] := by
  unfold lookup; split <;> rfl

theorem length_operator_demand (operator : Operator) (name : String) (isSet : Bool)
    (value : String) (word : List Char) :
    (operator.demand name isSet value word).body.length ≤ word.length := by
  cases operator <;> cases isSet <;> simp [Operator.demand, Demand.body]

theorem length_bracedDemand (body : List Char) (line : Nat) (vars : Bindings) :
    (bracedDemand body line vars).body.length ≤ body.length := by
  have hd := length_dropWhile_le isNameChar body
  simp only [bracedDemand]
  split
  · split
    · simp [body_lookup]
    · simp [Demand.body]
    · rename_i h
      have := length_usage h
      exact Nat.le_trans (length_operator_demand ..) (by omega)
  · simp [Demand.body]

theorem Piece.length_demand (piece : Piece) (line : Nat) (vars : Bindings) :
    (piece.demand line vars).body.length ≤ piece.body.length := by
  cases piece with
  | char c => simp [Piece.demand, Demand.body]
  | name chars => simp [Piece.demand, body_lookup]
  | braced body => exact length_bracedDemand body line vars
  | unterminated => simp [Piece.demand, Demand.body]

/-- The outcome of a word, passed on to what finishes its expression. -/
def Outcome.finish (out : Outcome) (finish : Finish) (line : Nat) : Outcome :=
  match out.result with
  | .error e => fail out.vars e
  | .ok text => finish.apply line out.vars text

/-- Expands a text that starts on `line`. -/
def expand (input : List Char) (line : Nat) (vars : Bindings) : Outcome :=
  match h : Piece.next? input with
  | none => verbatim vars []
  | some (piece, rest) =>
    have hn := Piece.length_next h
    have _hp := Piece.length_demand piece line vars
    let first :=
      match _hd : piece.demand line vars with
      | .give text => verbatim vars text
      | .fail e => fail vars e
      | .word word finish => (expand word line vars).finish finish line
    first.followedBy (expand rest (line + piece.newlines))
termination_by input.length
decreasing_by
  · simp only [_hd, Demand.body] at _hp; omega
  · omega

/-- Expands every expression of a text, from its first line on. -/
def substitute (text : String) (vars : Bindings) : Bindings × Except ExpansionError String :=
  let out := expand text.toList 1 vars
  (out.vars, out.result.map String.ofList)

end Variables

end ClusterConfig
