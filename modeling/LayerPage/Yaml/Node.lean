/-
The nodes of a YAML document: scalars, sequences and mappings, some of which carry an anchor, and
aliases that stand for the node of an anchor. What an anchor is named by is left open.
-/
import LayerPage.Yaml.Token

namespace LayerPage.Yaml

/-- A node whose anchors are named by values of a type. -/
inductive Node (α : Type)
  | alias (target : α)
  | scalar (anchor? : Option α) (tag? : Option (List Char)) (text : List Char) (style : ScalarStyle)
  | sequence (anchor? : Option α) (items : List (Node α))
  | mapping (anchor? : Option α) (entries : List (Node α × Node α))

namespace Node

variable {α : Type}

def empty : Node α :=
  .scalar none none [] .plain

def anchor? : Node α → Option α
  | .alias _ => none
  | .scalar anchor? .. | .sequence anchor? _ | .mapping anchor? _ => anchor?

mutual

/-- Number of nodes, where a sequence and a mapping count for two. -/
def weight : Node α → Nat
  | .alias _ | .scalar .. => 1
  | .sequence _ items => 2 + weightOfItems items
  | .mapping _ entries => 2 + weightOfEntries entries

def weightOfItems : List (Node α) → Nat
  | [] => 0
  | node :: nodes => weight node + weightOfItems nodes

/-- Number of nodes in a list of entries. -/
def weightOfEntries : List (Node α × Node α) → Nat
  | [] => 0
  | (key, value) :: entries => weight key + weight value + weightOfEntries entries

end

end Node

end LayerPage.Yaml
