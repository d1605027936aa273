import ClusterConfig.Template.Reading.Expressions

/-!
# Reading statements

A template is text with outputs and tags in it. Some tags hold a body up to the tag that ends them.
-/

set_option autoImplicit false

namespace ClusterConfig.Template.Reading

def targetName? : List Token → Option (String × List Token)
  | .name name :: rest => if reservedNames.contains name then none else some (name, rest)
  | _ => none

/-- Tokens that end a list of targets. -/
def endsTargets : Token → Bool
  | .sign ")" => true
  | .outputEnd => true
  | .tagEnd => true
  | .name "in" => true
  | _ => false

mutual

/-- Reads names separated by commas; more than one, or a closing comma, takes a value apart. -/
def readTargets : Nat → List Token → Option (Target × List Token)
  | 0, _ => none
  | fuel + 1, tokens => do
    let (targets, apart, rest) ← readTargetList fuel tokens
    match targets with
    | [target] => if apart then return (.each [target], rest) else return (target, rest)
    | targets => return (.each targets, rest)

def readTargetList : Nat → List Token → Option (List Target × Bool × List Token)
  | 0, _ => none
  | fuel + 1, tokens =>
    if tokens.head?.any endsTargets then some ([], false, tokens)
    else do
      let (target, rest) ← readTarget fuel tokens
      match rest with
      | .sign "," :: rest => do
        let (targets, _, rest) ← readTargetList fuel rest
        return (target :: targets, true, rest)
      | _ => return ([target], false, rest)

def readTarget : Nat → List Token → Option (Target × List Token)
  | 0, _ => none
  | fuel + 1, .sign "(" :: rest => do
    let (target, rest) ← readTargets fuel rest
    return (target, ← expect (.sign ")") rest)
  | _ + 1, tokens => do
    let (name, rest) ← targetName? tokens
    return (.name name, rest)

end

def targets? (tokens : List Token) : Option (Target × List Token) :=
  readTargets (3 * tokens.length + 3) tokens

/-- A name, or targets in brackets. -/
def bracketedTarget? : List Token → Option (Target × List Token)
  | .sign "(" :: rest => do
    let (target, rest) ← targets? rest
    return (target, ← expect (.sign ")") rest)
  | tokens => do
    let (name, rest) ← targetName? tokens
    return (.name name, rest)

/-- Reads filters separated by bars up to the end of the tag. -/
def readFilterChain : Nat → List Token → Option (List PendingFilter × List Token)
  | 0, _ => none
  | fuel + 1, tokens => do
    let (filter, rest) ← readFilter (exprFuel tokens) tokens
    match rest with
    | .tagEnd :: rest => return ([filter], rest)
    | _ => do
      let (filters, rest) ← readFilterChain fuel (← expect (.sign "|") rest)
      return (filter :: filters, rest)

def filterChain? (tokens : List Token) : Option (List PendingFilter × List Token) :=
  readFilterChain (tokens.length + 1) tokens

/-- Reads assignments separated by commas up to the end of the tag. -/
def readAssignments : Nat → List Token → Option (List (Target × Expr) × List Token)
  | 0, _ => none
  | fuel + 1, tokens => do
    let (target, rest) ← bracketedTarget? tokens
    let (value, rest) ← expr? (← expect (.sign "=") rest)
    match rest with
    | .tagEnd :: rest => return ([(target, value)], rest)
    | _ => do
      let (assignments, rest) ← readAssignments fuel (← expect (.sign ",") rest)
      return ((target, value) :: assignments, rest)

def assignments? : List Token → Option (List (Target × Expr) × List Token)
  | .tagEnd :: rest => some ([], rest)
  | tokens => readAssignments (tokens.length + 1) tokens

mutual

/-- Reads statements up to a tag that starts with one of the words, or to the end. -/
def readBody : Nat → List String → List Token → Option (List Statement × List Token)
  | 0, _, _ => none
  | _ + 1, _, [] => some ([], [])
  | fuel + 1, stops, .data text :: rest => do
    let (more, rest) ← readBody fuel stops rest
    return (.text text :: more, rest)
  | fuel + 1, stops, .outputStart :: rest => do
    let (value, rest) ← expr? rest
    let (more, rest) ← readBody fuel stops (← expect .outputEnd rest)
    return (.output value :: more, rest)
  | fuel + 1, stops, .tagStart :: .name word :: rest =>
    if stops.contains word then some ([], .name word :: rest)
    else do
      let (statement, rest) ← readStatement fuel word rest
      let (more, rest) ← readBody fuel stops (← expect .tagEnd rest)
      return (statement :: more, rest)
  | _, _, _ => none

/-- Reads a statement after its first word, up to the end of its last tag. -/
def readStatement : Nat → String → List Token → Option (Statement × List Token)
  | 0, _, _ => none
  | fuel + 1, "if", tokens => readBranch fuel tokens
  | fuel + 1, "for", tokens => do
    let (target, rest) ← targets? tokens
    let (source, rest) ← unconditional? (← expect (.name "in") rest)
    let (keep, rest) ← (
      match rest with
      | .name "if" :: rest => do
        let (keep, rest) ← expr? rest
        return (some keep, rest)
      | _ => return (none, rest))
    let (body, rest) ← readBody fuel ["endfor", "else"] (← expect .tagEnd rest)
    match rest with
    | .name "else" :: rest => do
      let (otherwise, rest) ← readBody fuel ["endfor"] (← expect .tagEnd rest)
      return (.loop target source keep body otherwise, rest.drop 1)
    | _ => return (.loop target source keep body [], rest.drop 1)
  | fuel + 1, "set", tokens => do
    let (target, rest) ← bracketedTarget? tokens
    match target, rest with
    | .name name, .tagEnd :: rest => readCapture fuel name [] rest
    | .name name, .sign "|" :: rest => do
      let (filters, rest) ← filterChain? rest
      readCapture fuel name filters rest
    | _, _ => do
      let (value, rest) ← expr? (← expect (.sign "=") rest)
      return (.assign target value, rest)
  | fuel + 1, "with", tokens => do
    let (assignments, rest) ← assignments? tokens
    let (body, rest) ← readBody fuel ["endwith"] rest
    return (.within assignments body, rest.drop 1)
  | fuel + 1, "filter", tokens => do
    let (filters, rest) ← filterChain? tokens
    let (body, rest) ← readBody fuel ["endfilter"] rest
    return (.filtered filters body, rest.drop 1)
  | _ + 1, "do", tokens => do
    let (value, rest) ← expr? tokens
    match value with
    | .call .. => return (.evaluate value, rest)
    | .method .. => return (.evaluate value, rest)
    | .callValue .. => return (.evaluate value, rest)
    | _ => none
  | fuel + 1, "block", .name name :: rest => do
    let (body, rest) ← readBody fuel ["endblock"] (← expect .tagEnd rest)
    match rest.drop 1 with
    | .name closing :: rest => if closing = name then return (.block body, rest) else none
    | rest => return (.block body, rest)
  | _, _, _ => none

/-- Reads a condition, its body and the branches that follow. -/
def readBranch : Nat → List Token → Option (Statement × List Token)
  | 0, _ => none
  | fuel + 1, tokens => do
    let (condition, rest) ← unconditional? tokens
    let (yes, rest) ← readBody fuel ["endif", "else", "elif"] (← expect .tagEnd rest)
    match rest with
    | .name "else" :: rest => do
      let (no, rest) ← readBody fuel ["endif"] (← expect .tagEnd rest)
      return (.branch condition yes no, rest.drop 1)
    | .name "elif" :: rest => do
      let (no, rest) ← readBranch fuel rest
      return (.branch condition yes [no], rest)
    | _ => return (.branch condition yes [], rest.drop 1)

/-- Reads the body that a name is assigned. -/
def readCapture : Nat → String → List PendingFilter → List Token → Option (Statement × List Token)
  | 0, _, _, _ => none
  | fuel + 1, name, filters, tokens => do
    let (body, rest) ← readBody fuel ["endset"] tokens
    return (.capture name filters body, rest.drop 1)

end

/-- The names of the blocks of a template. -/
def blockNames : List Token → List String
  | .tagStart :: .name "block" :: .name name :: rest => name :: blockNames rest
  | _ :: rest => blockNames rest
  | [] => []

def allDifferent : List String → Bool
  | [] => true
  | name :: rest => !rest.contains name && allDifferent rest

/-- The statements of a template, whose blocks have different names. -/
def statements? (text : List Char) : Option (List Statement) := do
  let tokens ← Token.ofText? text
  if allDifferent (blockNames tokens) then
    let (statements, _) ← readBody (3 * tokens.length + 3) [] tokens
    return statements
  else none


end ClusterConfig.Template.Reading
