import ClusterConfig.Yaml.Graph

/-!
# Documents without aliases

Each alias stands for the node its number was given to last. A document may nest 128 collections
deep and follow a hundred times as many aliases as it has nodes; what lies beyond is unreadable.
-/

set_option autoImplicit false

namespace ClusterConfig.Yaml

inductive Node where
  | scalar (tag : Option String) (style : Style) (text : String)
  | sequence (tag : Option String) (items : List Node)
  | mapping (tag : Option String) (entries : List (Node × Node))
  | unreadable

/-- How deep collections may nest. -/
def nestingLimit : Nat := 128

namespace Graph

mutual

/-- How many steps it takes to walk through a node: one for a scalar or an alias, two for a
collection besides what it holds. -/
def steps : Graph → Nat
  | .scalar _ _ _ => 1
  | .sequence _ items => 2 + itemSteps items
  | .mapping _ entries => 2 + entrySteps entries
  | .anchored _ node => steps node
  | .alias _ => 1

def itemSteps : List Graph → Nat
  | [] => 0
  | item :: rest => steps item + itemSteps rest

def entrySteps : List (Graph × Graph) → Nat
  | [] => 0
  | (key, value) :: rest => steps key + steps value + entrySteps rest

end

mutual

/-- The anchored nodes, each with its number, in the order in which they start. -/
def anchors : Graph → List (Nat × Graph)
  | .scalar _ _ _ => []
  | .sequence _ items => itemAnchors items
  | .mapping _ entries => entryAnchors entries
  | .anchored number node => (number, node) :: anchors node
  | .alias _ => []

def itemAnchors : List Graph → List (Nat × Graph)
  | [] => []
  | item :: rest => anchors item ++ itemAnchors rest

def entryAnchors : List (Graph × Graph) → List (Nat × Graph)
  | [] => []
  | (key, value) :: rest => anchors key ++ anchors value ++ entryAnchors rest

end

/-- The node that got a number last. -/
def target (table : List (Nat × Graph)) (number : Nat) : Option Graph :=
  (table.reverse.find? (·.1 = number)).map (·.2)

/-- Applies a step to each element, handing on how many aliases may still be followed. -/
def mapJumps {α β : Type} (f : Nat → α → β × Nat) : Nat → List α → List β × Nat
  | jumps, [] => ([], jumps)
  | jumps, x :: rest =>
    let (y, jumps) := f jumps x
    let (ys, jumps) := mapJumps f jumps rest
    (y :: ys, jumps)

/-- The node behind an anchor or an alias. -/
def follow (table : List (Nat × Graph)) (jumps : Nat) : Graph → Option Graph × Nat
  | .anchored _ node => follow table jumps node
  | .alias number => if jumps = 0 then (none, 0) else (target table number, jumps - 1)
  | node => (some node, jumps)

/-- Replaces aliases in a node; `child` does so in the nodes it holds, if it may hold any. -/
def expandWith (table : List (Nat × Graph)) (child : Option (Nat → Graph → Node × Nat))
    (jumps : Nat) (node : Graph) : Node × Nat :=
  match follow table jumps node, child with
  | (some (.scalar tag style text), jumps), _ => (.scalar tag style text, jumps)
  | (some (.sequence tag items), jumps), some child =>
    let (items, jumps) := mapJumps child jumps items
    (.sequence tag items, jumps)
  | (some (.mapping tag entries), jumps), some child =>
    let entry (jumps : Nat) (entry : Graph × Graph) : (Node × Node) × Nat :=
      let (key, jumps) := child jumps entry.1
      let (value, jumps) := child jumps entry.2
      ((key, value), jumps)
    let (entries, jumps) := mapJumps entry jumps entries
    (.mapping tag entries, jumps)
  | (_, jumps), _ => (.unreadable, jumps)

/-- Replaces aliases from left to right and cuts off what nests deeper than `depth`. A node that
holds its own alias nests too deep. -/
def expandAt (table : List (Nat × Graph)) : Nat → Nat → Graph → Node × Nat
  | 0 => expandWith table none
  | depth + 1 => expandWith table (some (expandAt table depth))

/-- A document with its aliases replaced. -/
def expand (root : Graph) : Node := (expandAt root.anchors nestingLimit (100 * root.steps) root).1

end Graph

/-- The documents of a text, up to the first that cannot be read. -/
def nodes (text : String) : List (Option Node) := (graphs text.toList).map (·.map Graph.expand)

/-- The only document of a text. -/
def node? (text : String) : Option Node :=
  match nodes text with
  | [some node] => some node
  | _ => none

end ClusterConfig.Yaml
