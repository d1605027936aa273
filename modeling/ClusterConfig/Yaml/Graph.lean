import ClusterConfig.Yaml.TokenStream

/-!
# Documents with anchors and aliases

The tokens of a text grouped into documents. An anchor is known by a number, the count of names that
were anchored before it in its document, and an alias by the number of the name it repeats.
-/

set_option autoImplicit false

namespace ClusterConfig.Yaml

inductive Graph where
  | scalar (tag : Option String) (style : Style) (text : String)
  | sequence (tag : Option String) (items : List Graph)
  | mapping (tag : Option String) (entries : List (Graph × Graph))
  | anchored (number : Nat) (node : Graph)
  | alias (number : Nat)

namespace Graph

/-- The scalar that stands where a node is left out. -/
def absent : Graph := .scalar none .plain ""

end Graph

/-- The tokens still to read, with the names of the document so far. -/
structure Composer where
  tokens : List Token
  anchors : List (List Char × Nat)
  handles : List (List Char × List Char)

namespace Composer

def skip (s : Composer) : Composer := { s with tokens := s.tokens.tail }

def lookup {α : Type} (name : List Char) : List (List Char × α) → Option α
  | [] => none
  | (other, value) :: rest => if other = name then some value else lookup name rest

/-- Gives a name the next number; a name that had one loses it. -/
def bind (s : Composer) (name : List Char) : Nat × Composer :=
  let number := s.anchors.length
  (number, { s with anchors := (name, number) :: s.anchors.filter (·.1 ≠ name) })

/-- The tag a handle and a suffix stand for. -/
def resolveTag (s : Composer) (handle suffix : List Char) : Option String :=
  if handle.isEmpty then some (String.ofList suffix)
  else (lookup handle s.handles).map fun start => String.ofList (start ++ suffix)

/-- An anchor and a tag in front of a node, in either order. -/
structure Properties where
  anchor : Option (List Char)
  tag : Option (List Char × List Char)

def properties (s : Composer) : Properties × Composer :=
  match s.tokens with
  | .anchor name :: .tag handle suffix :: rest =>
    (⟨some name, some (handle, suffix)⟩, { s with tokens := rest })
  | .tag handle suffix :: .anchor name :: rest =>
    (⟨some name, some (handle, suffix)⟩, { s with tokens := rest })
  | .anchor name :: rest => (⟨some name, none⟩, { s with tokens := rest })
  | .tag handle suffix :: rest => (⟨none, some (handle, suffix)⟩, { s with tokens := rest })
  | _ => (⟨none, none⟩, s)

/-- Where a node may stand: block collections only where lines may begin, and a sequence at the
indent of its mapping only as a key or a value. -/
inductive Context where
  | flow
  | block
  | blockEntry

def isBlockValueEnd : List Token → Bool
  | .key :: _ => true
  | .value :: _ => true
  | .blockEnd :: _ => true
  | _ => false

def isSequenceItemEnd : List Token → Bool
  | .blockEntry :: _ => true
  | .blockEnd :: _ => true
  | _ => false

def isAlignedItemEnd : List Token → Bool
  | .blockEntry :: _ => true
  | tokens => isBlockValueEnd tokens

def isPairKeyEnd : List Token → Bool
  | .value :: _ => true
  | .flowEntry :: _ => true
  | .flowSequenceEnd :: _ => true
  | _ => false

def isPairValueEnd : List Token → Bool
  | .flowEntry :: _ => true
  | .flowSequenceEnd :: _ => true
  | _ => false

def isFlowKeyEnd : List Token → Bool
  | .value :: _ => true
  | .flowEntry :: _ => true
  | .flowMappingEnd :: _ => true
  | _ => false

def isFlowValueEnd : List Token → Bool
  | .flowEntry :: _ => true
  | .flowMappingEnd :: _ => true
  | _ => false

mutual

def node : Nat → Context → Composer → Option (Graph × Composer)
  | 0, _, _ => none
  | fuel + 1, context, s =>
    match s.tokens with
    | .alias name :: _ => do
      let number ← lookup name s.anchors
      some (.alias number, s.skip)
    | _ => do
      let (found, s) := s.properties
      let tag ← match found.tag with
        | some (handle, suffix) => (s.resolveTag handle suffix).map some
        | none => some none
      let (number, s) := match found.anchor with
        | some name => let bound := s.bind name; (some bound.1, bound.2)
        | none => (none, s)
      let (value, s) ← content fuel context tag (found.anchor.isSome || found.tag.isSome) s
      some (match number with
        | some number => .anchored number value
        | none => value, s)

/-- A node after its anchor and tag; with one of these it may be left out. -/
def content : Nat → Context → Option String → Bool → Composer → Option (Graph × Composer)
  | 0, _, _, _, _ => none
  | fuel + 1, context, tag, named, s =>
    let omitted := if named then some (Graph.scalar tag .plain "", s) else none
    let sequence (found : Option (List Graph × Composer)) : Option (Graph × Composer) :=
      found.map fun (items, s) => (.sequence tag items, s)
    let mapping (found : Option (List (Graph × Graph) × Composer)) : Option (Graph × Composer) :=
      found.map fun (entries, s) => (.mapping tag entries, s)
    match s.tokens, context with
    | .scalar style text :: _, _ =>
      some (.scalar (if tag = some "!" then none else tag) style (String.ofList text), s.skip)
    | .flowSequence :: _, _ => sequence (flowItems fuel true s.skip)
    | .flowMapping :: _, _ => mapping (flowEntries fuel true s.skip)
    | .blockSequence :: _, .block => sequence (blockItems fuel s.skip)
    | .blockSequence :: _, .blockEntry => sequence (blockItems fuel s.skip)
    | .blockMapping :: _, .block => mapping (blockEntries fuel s.skip)
    | .blockMapping :: _, .blockEntry => mapping (blockEntries fuel s.skip)
    | .blockEntry :: _, .blockEntry => sequence (alignedItems fuel s)
    | _, _ => omitted

def blockItems : Nat → Composer → Option (List Graph × Composer)
  | 0, _ => none
  | fuel + 1, s =>
    match s.tokens with
    | .blockEntry :: rest => do
      let s := s.skip
      let (item, s) ← if isSequenceItemEnd rest then some (.absent, s) else node fuel .block s
      let (items, s) ← blockItems fuel s
      some (item :: items, s)
    | .blockEnd :: _ => some ([], s.skip)
    | _ => none

/-- The items of a sequence at the indent of its mapping; what follows ends it. -/
def alignedItems : Nat → Composer → Option (List Graph × Composer)
  | 0, _ => none
  | fuel + 1, s =>
    match s.tokens with
    | .blockEntry :: rest => do
      let s := s.skip
      let (item, s) ← if isAlignedItemEnd rest then some (.absent, s) else node fuel .block s
      let (items, s) ← alignedItems fuel s
      some (item :: items, s)
    | _ => some ([], s)

def blockEntries : Nat → Composer → Option (List (Graph × Graph) × Composer)
  | 0, _ => none
  | fuel + 1, s =>
    match s.tokens with
    | .key :: rest => do
      let s := s.skip
      let (key, s) ← if isBlockValueEnd rest then some (.absent, s) else node fuel .blockEntry s
      let (value, s) ← match s.tokens with
        | .value :: rest =>
          if isBlockValueEnd rest then some (.absent, s.skip) else node fuel .blockEntry s.skip
        | _ => some (.absent, s)
      let (entries, s) ← blockEntries fuel s
      some ((key, value) :: entries, s)
    | .blockEnd :: _ => some ([], s.skip)
    | _ => none

def flowItems : Nat → Bool → Composer → Option (List Graph × Composer)
  | 0, _, _ => none
  | fuel + 1, first, s =>
    match s.tokens with
    | .flowSequenceEnd :: _ => some ([], s.skip)
    | tokens => do
      let s ← if first then some s else
        match tokens with
        | .flowEntry :: _ => some s.skip
        | _ => none
      match s.tokens with
      | .flowSequenceEnd :: _ => some ([], s.skip)
      | .key :: _ => do
        let (entry, s) ← pair fuel s.skip
        let (items, s) ← flowItems fuel false s
        some (.mapping none [entry] :: items, s)
      | _ => do
        let (item, s) ← node fuel .flow s
        let (items, s) ← flowItems fuel false s
        some (item :: items, s)

/-- A single entry inside a flow sequence, after its key mark. A key that is left out takes the
token that follows with it. -/
def pair : Nat → Composer → Option ((Graph × Graph) × Composer)
  | 0, _ => none
  | fuel + 1, s => do
    let (key, s) ← if isPairKeyEnd s.tokens then some (.absent, s.skip) else node fuel .flow s
    let (value, s) ← match s.tokens with
      | .value :: rest =>
        if isPairValueEnd rest then some (.absent, s.skip) else node fuel .flow s.skip
      | _ => some (.absent, s)
    some ((key, value), s)

def flowEntries : Nat → Bool → Composer → Option (List (Graph × Graph) × Composer)
  | 0, _, _ => none
  | fuel + 1, first, s =>
    match s.tokens with
    | .flowMappingEnd :: _ => some ([], s.skip)
    | tokens => do
      let s ← if first then some s else
        match tokens with
        | .flowEntry :: _ => some s.skip
        | _ => none
      match s.tokens with
      | .flowMappingEnd :: _ => some ([], s.skip)
      | .key :: rest => do
        let s := s.skip
        let (key, s) ← if isFlowKeyEnd rest then some (.absent, s) else node fuel .flow s
        let (value, s) ← match s.tokens with
          | .value :: rest =>
            if isFlowValueEnd rest then some (.absent, s.skip) else node fuel .flow s.skip
          | _ => some (.absent, s)
        let (entries, s) ← flowEntries fuel false s
        some ((key, value) :: entries, s)
      | _ => do
        let (key, s) ← node fuel .flow s
        let (entries, s) ← flowEntries fuel false s
        some ((key, .absent) :: entries, s)

end

/-- The directives in front of a document: at most one version, 1.1 or 1.2, and each handle once. -/
def directives : Nat → Bool → Composer → Option Composer
  | 0, _, _ => none
  | fuel + 1, versioned, s =>
    match s.tokens with
    | .version major minor :: _ =>
      if versioned || major ≠ 1 || !(minor = 1 || minor = 2) then none
      else directives fuel true s.skip
    | .handle name replacement :: _ =>
      if (lookup name s.handles).isSome then none
      else directives fuel versioned
        { s.skip with handles := (name, replacement) :: s.handles }
    | _ => some s

def defaultHandles : List (List Char × List Char) :=
  [(['!'], ['!']), (['!', '!'], "tag:yaml.org,2002:".toList)]

def startsExplicitly : List Token → Bool
  | .version _ _ :: _ => true
  | .handle _ _ :: _ => true
  | .documentStart :: _ => true
  | _ => false

def isEmptyDocument : List Token → Bool
  | [] => true
  | .documentEnd :: _ => true
  | tokens => startsExplicitly tokens

/-- The document that starts here. Only the first may start without a mark. -/
def document (fuel : Nat) (first : Bool) (tokens : List Token) : Option (Graph × List Token) := do
  let s : Composer := ⟨tokens, [], []⟩
  let bare := first && !startsExplicitly tokens
  let s ← if bare then some s else do
    let s ← directives fuel false s
    match s.tokens with
    | .documentStart :: _ => some s.skip
    | _ => none
  let s := { s with handles := s.handles ++ defaultHandles }
  let (root, s) ←
    if !bare && isEmptyDocument s.tokens then some (.absent, s) else node fuel .block s
  match s.tokens with
  | .invalid :: _ => none
  | .documentEnd :: rest => some (root, rest)
  | rest => some (root, rest)

def skipEnds : List Token → List Token
  | .documentEnd :: rest => skipEnds rest
  | tokens => tokens

end Composer

/-- The documents of a text; the last one is missing if the text cannot be read on from there. -/
def documentsFrom (fuel : Nat) : Nat → Bool → List Token → List (Option Graph)
  | 0, _, _ => [none]
  | steps + 1, first, tokens =>
    match (if first then tokens else Composer.skipEnds tokens) with
    | [] => []
    | tokens =>
      match Composer.document fuel first tokens with
      | none => [none]
      | some (root, rest) => some root :: documentsFrom fuel steps false rest

/-- The documents of a text. A text without any token holds one document with nothing in it. -/
def graphs (text : List Char) : List (Option Graph) :=
  match tokens text with
  | [] => [some .absent]
  | tokens => documentsFrom (4 * tokens.length + 8) (tokens.length + 1) true tokens

end ClusterConfig.Yaml
