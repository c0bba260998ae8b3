/-
Manifests in the YAML notation. Any scalar is a text, whatever it looks like, and an empty one stands
for a sequence or mapping without items. Following an alias costs a step, and there is a number of
steps for each node: so a short text cannot stand for a tree without end.
-/
import LayerPage.Manifest.Definition
import LayerPage.Yaml.Document
import LayerPage.Yaml.Integer

namespace LayerPage.Yaml

/-- Reading a document with a number of steps left. -/
abbrev Reading := StateT Nat Option

namespace Reading

/-- The node that a node stands for. -/
def follow (document : Document) : Node Nat → Reading (Node Nat)
  | .alias number => do
    match ← get with
    | 0 => failure
    | steps + 1 =>
      set steps
      document.targets.lookup number
  | node => return node

def entries (document : Document) (node : Node Nat) : Reading (List (Node Nat × Node Nat)) := do
  match ← follow document node with
  | .mapping _ entries => return entries
  | .scalar _ _ [] .plain => return []
  | _ => failure

def items (document : Document) (node : Node Nat) : Reading (List (Node Nat)) := do
  match ← follow document node with
  | .sequence _ items => return items
  | .scalar _ _ [] .plain => return []
  | _ => failure

def text (document : Document) (node : Node Nat) : Reading String := do
  match ← follow document node with
  | .scalar _ _ text _ => return .ofList text
  | _ => failure

/-- The fields of a mapping, whose keys must be scalars. -/
def fields (document : Document) (node : Node Nat) : Reading (List (String × Node Nat)) := do
  (← entries document node).mapM fun (key, value) => return (← text document key, value)

/-- The words that stand for a value left out. -/
def nullWords : List String :=
  ["~", "null", "Null", "NULL"]

/-- Whether a text stands for a value left out. -/
def isNullWord (text : List Char) : Bool :=
  nullWords.contains (.ofList text)

/-- The tag of values left out. -/
def nullTag : List Char :=
  "tag:yaml.org,2002:null".toList

def integerTag : List Char :=
  "tag:yaml.org,2002:int".toList

/-- The node that a node stands for, unless it is a plain scalar for a value left out. -/
def present? (document : Document) (node : Node Nat) : Reading (Option (Node Nat)) := do
  match ← follow document node with
  | .scalar anchor? none text .plain =>
    if text.isEmpty || isNullWord text then return none
    else return some (.scalar anchor? none text .plain)
  | .scalar anchor? (some tag) text .plain =>
    if tag != nullTag then return some (.scalar anchor? (some tag) text .plain)
    else if isNullWord text then return none
    else failure
  | node => return some node

/-- The value of a plain scalar, or of a literal one with the tag of integers. -/
def integer (document : Document) (node : Node Nat) : Reading Int := do
  match ← follow document node with
  | .scalar _ _ text .plain => integer? text
  | .scalar _ (some tag) text .literal => if tag == integerTag then integer? text else failure
  | _ => failure

/-- The kind of a layer: a scalar with its name, or a scalar without value whose tag names it. -/
def kind (document : Document) (node : Node Nat) : Reading LayerKind := do
  match ← follow document node with
  | .scalar _ (some ('!' :: name)) text style =>
    if style = .plain && (text.isEmpty || isNullWord text) then LayerKind.ofName? (.ofList name)
    else failure
  | .scalar _ _ text _ => LayerKind.ofName? (.ofList text)
  | _ => failure

end Reading

/-- How the nodes of a document are taken apart. -/
def Document.definitionReader (document : Document) : DefinitionReader Reading (Node Nat) where
  fail := failure
  fields _ := Reading.fields document
  items := Reading.items document
  present? := Reading.present? document
  text := Reading.text document
  integer := Reading.integer document
  kind _ := Reading.kind document

/-- How many sequences and mappings of a manifest may lie in each other. -/
def maxLevels : Nat := 128

/-- How many aliases may be followed for each node. -/
def stepsPerNode : Nat := 100

def Document.layerDefinitions? (document : Document) : Option (List LayerDefinition) :=
  (document.definitionReader.manifest maxLevels document.root).run'
    (stepsPerNode * document.root.weight)

/-- The layer definitions of a manifest in the YAML notation. A text without a document has none. -/
def layerDefinitions? (text : String) : Option (List LayerDefinition) := do
  match ← Document.ofText? text with
  | none => return []
  | some document => document.layerDefinitions?

end LayerPage.Yaml
