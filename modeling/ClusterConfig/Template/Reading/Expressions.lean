import ClusterConfig.Template.Expression
import ClusterConfig.Template.Token

/-!
# Reading expressions

Operators bind, from the loosest: `if`, `or`, `and`, `not`, comparisons, sums, `~`, products,
powers; then signs, attributes, and last filters and tests.
-/

set_option autoImplicit false

namespace ClusterConfig.Template

/-- The levels of binding, the loosest first. -/
inductive Level where
  | either | both | negation | comparison | sum | joining | product | power | operand
deriving DecidableEq

namespace Level

def tighter : Level → Level
  | .either => .both
  | .both => .negation
  | .negation => .comparison
  | .comparison => .sum
  | .sum => .joining
  | .joining => .product
  | .product => .power
  | .power => .operand
  | .operand => .operand

/-- What a token between two expressions of the next level makes of them. -/
def join? : Level → Token → Option (Expr → Expr → Expr)
  | .either, .name "or" => some .or
  | .both, .name "and" => some .and
  | .sum, .sign "+" => some (.binary (.arithmetic .add))
  | .sum, .sign "-" => some (.binary (.arithmetic .sub))
  | .joining, .sign "~" => some (.binary .concat)
  | .product, .sign "*" => some (.binary (.arithmetic .mul))
  | .product, .sign "/" => some (.binary (.arithmetic .div))
  | .product, .sign "//" => some (.binary (.arithmetic .floorDiv))
  | .product, .sign "%" => some (.binary (.arithmetic .rem))
  | .power, .sign "**" => some (.binary (.arithmetic .pow))
  | _, _ => none

end Level

namespace Reading

def expect (token : Token) : List Token → Option (List Token)
  | [] => none
  | t :: rest => if t = token then some rest else none

def comparison? : Token → Option Comparison
  | .sign "==" => some .eq
  | .sign "!=" => some .ne
  | .sign "<" => some .lt
  | .sign "<=" => some .le
  | .sign ">" => some .gt
  | .sign ">=" => some .ge
  | _ => none

/-- Names that stand for a value. -/
def constant? (name : String) : Option Value :=
  if name = "true" || name = "True" then some (.bool true)
  else if name = "false" || name = "False" then some (.bool false)
  else if name = "none" || name = "None" then some .absent
  else none

/-- Names that no value is assigned to. -/
def reservedNames : List String :=
  ["true", "True", "false", "False", "none", "None", "loop", "self"]

/-- Words after a test that are not its argument. -/
def wordsAfterTest : List String := ["and", "or", "else", "is", "if", "not", "in"]

/-- Whether a token starts the argument of a test that is written without brackets. -/
def startsArgument : Token → Bool
  | .name word => !wordsAfterTest.contains word
  | .quoted _ => true
  | .int _ => true
  | .float _ => true
  | .sign "[" => true
  | .sign "\x7b" => true
  | _ => false

mutual

def readExpr : Nat → List Token → Option (Expr × List Token)
  | 0, _ => none
  | fuel + 1, tokens => do
    let (value, rest) ← readLevel fuel .either tokens
    readChoice fuel value rest

/-- Reads the conditions that may follow an expression. -/
def readChoice : Nat → Expr → List Token → Option (Expr × List Token)
  | 0, _, _ => none
  | fuel + 1, yes, .name "if" :: rest => do
    let (condition, rest) ← readLevel fuel .either rest
    match rest with
    | .name "else" :: rest =>
      let (no, rest) ← readExpr fuel rest
      readChoice fuel (.choose condition yes no) rest
    | _ => readChoice fuel (.choose condition yes (.constant (.undefined true))) rest
  | _, value, rest => some (value, rest)

def readLevel : Nat → Level → List Token → Option (Expr × List Token)
  | 0, _, _ => none
  | fuel + 1, .negation, .name "not" :: rest => do
    let (value, rest) ← readLevel fuel .negation rest
    return (.not value, rest)
  | fuel + 1, .negation, tokens => readLevel fuel .comparison tokens
  | fuel + 1, .comparison, tokens => do
    let (value, rest) ← readLevel fuel .sum tokens
    readComparisons fuel value rest
  | fuel + 1, .operand, tokens => do
    let (value, rest) ← readSigned fuel tokens
    let (value, rest) ← readParts fuel value rest
    readFilters fuel value rest
  | fuel + 1, level, tokens => do
    let (value, rest) ← readLevel fuel level.tighter tokens
    readMore fuel level value rest

/-- Reads the further operands of a level, from left to right. -/
def readMore : Nat → Level → Expr → List Token → Option (Expr × List Token)
  | 0, _, _, _ => none
  | _ + 1, _, left, [] => some (left, [])
  | fuel + 1, level, left, token :: rest =>
    match level.join? token with
    | none => some (left, token :: rest)
    | some join => do
      let (right, rest) ← readLevel fuel level.tighter rest
      readMore fuel level (join left right) rest

def readComparisons : Nat → Expr → List Token → Option (Expr × List Token)
  | 0, _, _ => none
  | _ + 1, left, [] => some (left, [])
  | fuel + 1, left, .name "in" :: rest => do
    let (right, rest) ← readLevel fuel .sum rest
    readComparisons fuel (.binary .contains left right) rest
  | fuel + 1, left, .name "not" :: rest => do
    let rest ← expect (.name "in") rest
    let (right, rest) ← readLevel fuel .sum rest
    readComparisons fuel (.not (.binary .contains left right)) rest
  | fuel + 1, left, token :: rest =>
    match comparison? token with
    | none => some (left, token :: rest)
    | some op => do
      let (right, rest) ← readLevel fuel .sum rest
      readComparisons fuel (.binary (.comparison op) left right) rest

/-- Reads an operand with the signs before it. -/
def readSigned : Nat → List Token → Option (Expr × List Token)
  | 0, _ => none
  | fuel + 1, .sign "-" :: rest => do
    let (value, rest) ← readSigned fuel rest
    return (.negate value, rest)
  | _ + 1, .name name :: rest =>
    match constant? name with
    | some value => some (.constant value, rest)
    | none => some (.variable name, rest)
  | _ + 1, .quoted text :: rest => some (.constant (.str text), rest)
  | _ + 1, .int n :: rest => some (.constant (.int n), rest)
  | _ + 1, .float x :: rest => some (.constant (.float x), rest)
  | _ + 1, .sign "(" :: .sign ")" :: rest => some (.list [], rest)
  | fuel + 1, .sign "(" :: rest => do
    let (first, rest) ← readExpr fuel rest
    match rest with
    | .sign "," :: rest => do
      let (items, rest) ← readItems fuel (.sign ")") rest
      return (.list (first :: items), rest)
    | _ => return (first, ← expect (.sign ")") rest)
  | fuel + 1, .sign "[" :: rest => do
    let (items, rest) ← readItems fuel (.sign "]") rest
    return (.list items, rest)
  | fuel + 1, .sign "\x7b" :: rest => do
    let (members, rest) ← readMembers fuel rest
    return (.mapping members, rest)
  | _, _ => none

/-- Reads items up to the closing bracket; a comma may stand before it. -/
def readItems : Nat → Token → List Token → Option (List Expr × List Token)
  | 0, _, _ => none
  | fuel + 1, close, tokens =>
    match expect close tokens with
    | some rest => some ([], rest)
    | none => do
      let (item, rest) ← readExpr fuel tokens
      match expect close rest with
      | some rest => some ([item], rest)
      | none => do
        let rest ← expect (.sign ",") rest
        let (items, rest) ← readItems fuel close rest
        return (item :: items, rest)

def readMembers : Nat → List Token → Option (List (Expr × Expr) × List Token)
  | 0, _ => none
  | _ + 1, .sign "\x7d" :: rest => some ([], rest)
  | fuel + 1, tokens => do
    let (key, rest) ← readExpr fuel tokens
    let (value, rest) ← readExpr fuel (← expect (.sign ":") rest)
    match rest with
    | .sign "\x7d" :: rest => return ([(key, value)], rest)
    | _ => do
      let (members, rest) ← readMembers fuel (← expect (.sign ",") rest)
      return ((key, value) :: members, rest)

/-- Reads arguments up to the closing bracket; named ones stand last. -/
def readArguments : Nat → List Expr → List (String × Expr) → List Token →
    Option (List Expr × List (String × Expr) × List Token)
  | 0, _, _, _ => none
  | _ + 1, arguments, named, .sign ")" :: rest => some (arguments, named, rest)
  | fuel + 1, arguments, named, tokens => do
    let (value, rest) ← readExpr fuel tokens
    let (arguments, named, rest) ← (
      match value, rest with
      | .variable name, .sign "=" :: rest => do
        let (value, rest) ← readExpr fuel rest
        return (arguments, named ++ [(name, value)], rest)
      | _, _ => if named.isEmpty then some (arguments ++ [value], named, rest) else none)
    match rest with
    | .sign ")" :: rest => some (arguments, named, rest)
    | _ => readArguments fuel arguments named (← expect (.sign ",") rest)

/-- Reads the attributes, items and calls that follow an operand. -/
def readParts : Nat → Expr → List Token → Option (Expr × List Token)
  | 0, _, _ => none
  | fuel + 1, source, .sign "." :: .name name :: rest => readParts fuel (.attribute source name) rest
  | _ + 1, _, .sign "." :: _ => none
  | fuel + 1, source, .sign "[" :: rest => do
    let (source, rest) ← readSubscript fuel source rest
    readParts fuel source rest
  | fuel + 1, source, .sign "(" :: rest => do
    let (arguments, named, rest) ← readArguments fuel [] [] rest
    let called :=
      match source with
      | .variable name => .call name arguments named
      | .attribute source name => .method source name arguments named
      | source => .callValue source arguments named
    readParts fuel called rest
  | _, source, rest => some (source, rest)

/-- Reads an item or a slice up to its closing bracket. -/
def readSubscript : Nat → Expr → List Token → Option (Expr × List Token)
  | 0, _, _ => none
  | fuel + 1, source, tokens => do
    let (start, rest) ← readBound fuel tokens
    match rest with
    | .sign ":" :: rest => do
      let (stop, rest) ← readBound fuel rest
      let (step, rest) ← (
        match rest with
        | .sign ":" :: rest => readBound fuel rest
        | _ => some (none, rest))
      let bound := fun (value : Option Expr) => value.getD (.constant .absent)
      return (.slice source (bound start) (bound stop) (bound step), ← expect (.sign "]") rest)
    | _ => return (.item source (← start), ← expect (.sign "]") rest)

/-- Reads a bound of a slice, which may be missing. -/
def readBound : Nat → List Token → Option (Option Expr × List Token)
  | 0, _ => none
  | _ + 1, .sign ":" :: rest => some (none, .sign ":" :: rest)
  | _ + 1, .sign "]" :: rest => some (none, .sign "]" :: rest)
  | fuel + 1, tokens => do
    let (value, rest) ← readExpr fuel tokens
    return (some value, rest)

/-- Reads the filters and tests that follow an operand. -/
def readFilters : Nat → Expr → List Token → Option (Expr × List Token)
  | 0, _, _ => none
  | fuel + 1, source, .sign "|" :: rest => do
    let (filter, rest) ← readFilter fuel rest
    readFilters fuel (filter.of source) rest
  | fuel + 1, source, .name "is" :: .name "not" :: .name name :: rest => do
    let (arguments, named, rest) ← readTestArguments fuel rest
    readFilters fuel (.not (.test source name arguments named)) rest
  | fuel + 1, source, .name "is" :: .name name :: rest => do
    let (arguments, named, rest) ← readTestArguments fuel rest
    readFilters fuel (.test source name arguments named) rest
  | _ + 1, _, .name "is" :: _ => none
  | _, source, rest => some (source, rest)

/-- Reads the name of a filter and its arguments. -/
def readFilter : Nat → List Token → Option (PendingFilter × List Token)
  | 0, _ => none
  | fuel + 1, .name name :: .sign "(" :: rest => do
    let (arguments, named, rest) ← readArguments fuel [] [] rest
    return (⟨name, arguments, named⟩, rest)
  | _ + 1, .name name :: rest => some (⟨name, [], []⟩, rest)
  | _, _ => none

/-- Reads the arguments of a test; a single one may stand without brackets. -/
def readTestArguments : Nat → List Token → Option (List Expr × List (String × Expr) × List Token)
  | 0, _ => none
  | fuel + 1, .sign "(" :: rest => readArguments fuel [] [] rest
  | fuel + 1, token :: rest =>
    if startsArgument token then do
      let (value, rest) ← readSigned fuel (token :: rest)
      let (value, rest) ← readParts fuel value rest
      return ([value], [], rest)
    else some ([], [], token :: rest)
  | _ + 1, [] => some ([], [], [])

end

/-- Every token costs at most the levels that lead to it. -/
def exprFuel (tokens : List Token) : Nat := 20 * tokens.length + 20

def expr? (tokens : List Token) : Option (Expr × List Token) :=
  readExpr (exprFuel tokens) tokens

/-- An expression that does not end in a condition of its own. -/
def unconditional? (tokens : List Token) : Option (Expr × List Token) :=
  readLevel (exprFuel tokens) .either tokens

end Reading

end ClusterConfig.Template
