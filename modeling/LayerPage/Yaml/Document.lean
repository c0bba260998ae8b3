/-
YAML documents whose aliases are resolved. Every anchor gets a number: that of the different names
declared before it. A name that is declared again gets a number anew, which may then be given to
another name too; an alias means the last node with the number its name has where the alias stands.
-/
import LayerPage.Yaml.Node.Parser
import LayerPage.Yaml.Token.Lexer

namespace LayerPage.Yaml

/-- The numbers of the names declared so far, one for each name. -/
abbrev AnchorNumbers := List (AnchorName × Nat)

namespace AnchorNumbers

def declare (numbers : AnchorNumbers) (name : AnchorName) : Nat × AnchorNumbers :=
  (numbers.length, (name, numbers.length) :: numbers.filter (·.1 != name))

/-- Give a number to an anchor, if there is one. -/
def declare? (numbers : AnchorNumbers) : Option AnchorName → Option Nat × AnchorNumbers
  | none => (none, numbers)
  | some name =>
    let (number, numbers) := numbers.declare name
    (some number, numbers)

end AnchorNumbers

namespace Node

mutual

/-- Put numbers for the names of anchors, in the order of the text. Every alias must have its anchor
before it. -/
def number? (numbers : AnchorNumbers) : Node AnchorName → Option (Node Nat × AnchorNumbers)
  | .alias name => (numbers.lookup name).map fun number => (.alias number, numbers)
  | .scalar name? tag? text style =>
    let (anchor?, numbers) := numbers.declare? name?
    some (.scalar anchor? tag? text style, numbers)
  | .sequence name? items => do
    let (anchor?, numbers) := numbers.declare? name?
    let (items, numbers) ← numberItems? numbers items
    return (.sequence anchor? items, numbers)
  | .mapping name? entries => do
    let (anchor?, numbers) := numbers.declare? name?
    let (entries, numbers) ← numberEntries? numbers entries
    return (.mapping anchor? entries, numbers)

/-- Put numbers into a list of nodes. -/
def numberItems? (numbers : AnchorNumbers) :
    List (Node AnchorName) → Option (List (Node Nat) × AnchorNumbers)
  | [] => some ([], numbers)
  | node :: nodes => do
    let (node, numbers) ← number? numbers node
    let (nodes, numbers) ← numberItems? numbers nodes
    return (node :: nodes, numbers)

/-- Put numbers into a list of entries. -/
def numberEntries? (numbers : AnchorNumbers) :
    List (Node AnchorName × Node AnchorName) → Option (List (Node Nat × Node Nat) × AnchorNumbers)
  | [] => some ([], numbers)
  | (key, value) :: entries => do
    let (key, numbers) ← number? numbers key
    let (value, numbers) ← number? numbers value
    let (entries, numbers) ← numberEntries? numbers entries
    return ((key, value) :: entries, numbers)

end

mutual

/-- The nodes with anchors, in the order of the text. -/
def anchored : Node Nat → List (Nat × Node Nat)
  | .alias _ => []
  | .scalar anchor? tag? text style =>
    anchor?.toList.map (·, .scalar anchor? tag? text style)
  | .sequence anchor? items =>
    anchor?.toList.map (·, .sequence anchor? items) ++ anchoredItems items
  | .mapping anchor? entries =>
    anchor?.toList.map (·, .mapping anchor? entries) ++ anchoredEntries entries

/-- The nodes with anchors in a list. -/
def anchoredItems : List (Node Nat) → List (Nat × Node Nat)
  | [] => []
  | node :: nodes => anchored node ++ anchoredItems nodes

/-- The nodes with anchors in a list of entries. -/
def anchoredEntries : List (Node Nat × Node Nat) → List (Nat × Node Nat)
  | [] => []
  | (key, value) :: entries => anchored key ++ anchored value ++ anchoredEntries entries

end

end Node

/-- A document: its node, and the nodes that aliases stand for by their number. -/
structure Document where
  root : Node Nat
  targets : List (Nat × Node Nat)

namespace Document

def ofNode? (node : Node AnchorName) : Option Document := do
  let (root, _) ← node.number? []
  return { root, targets := root.anchored.reverse }

/-- The document of a text; nothing inside if the text has none. -/
def ofText? (text : String) : Option (Option Document) := do
  match ← Node.ofTokens? (← Token.ofText? text) with
  | none => return none
  | some node => return some (← ofNode? node)

end Document

end LayerPage.Yaml
