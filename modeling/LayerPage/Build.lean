/-
Building the tree of elements from a tree of layers. Layers are visited depth first, a layer before
its children. Each becomes one element, and its rule is entered in the style sheet then. A folder
around a normal layer with the same identifier absorbs the element of that layer, and takes its
geometry and pixels from it:

    folder logo       becomes   <div id="logo">  with the geometry of the inner layer
      normal logo

When the children of a layer are all there, each of those that are left learns who its peers are.
-/
import LayerPage.Element.Tree
import LayerPage.LayerName.Parser
import LayerPage.Metadata

namespace LayerPage

/-- A tree of elements with its style sheet, and what was met while building it. -/
structure Construction (α : Type) where
  tree : ElementTree α := {}
  /-- The elements whose rules make up the style sheet, in order. -/
  stylesheet : List ElementId := []
  diagnostics : List Diagnostic := []

/-- A whole tree and its root. -/
structure BuiltTree (α : Type) extends Construction α where
  root : ElementId

namespace Construction

variable {α : Type}

/-- The deepest level a layer may lie on, the root being on level 0. -/
def maxDepth : Nat := 256

/-- Code of the diagnostics about layer names. -/
def nameCode : String := "strata::layer-name"

/-- Read the name of a layer. A layer whose name cannot be read is kept as an empty element. -/
def readName [Layer α] (layer : α) : LayerName × List Diagnostic :=
  match LayerName.parse (Layer.name layer) with
  | .ok name => (name, [])
  | .error fault =>
    (.blank, [{ code := nameCode, message := fault.message, layer? := Layer.name layer
                help? := "The layer is kept as an empty element" }])

/-- Whether a child's element is absorbed: a folder and a normal layer share an identifier. -/
def absorbs [Layer α] (folder : α) (identifier : String) (child : α) (childIdentifier : String) :
    Bool :=
  Layer.kind folder == .folder && Layer.kind child == .normal && !identifier.isEmpty
    && identifier == childIdentifier

/-- Add the element of a layer, without its children. -/
def addElement [Layer α] (registry : MetadataRegistry α) (layer : α) (name : LayerName)
    (c : Construction α) : Construction α × ElementId :=
  let (element, diagnostics) :=
    Metadata.apply registry (.create name.tag name.identifier layer) name.entries
  let (tree, id) := c.tree.insert element
  ({ tree, stylesheet := c.stylesheet ++ [id], diagnostics := c.diagnostics ++ diagnostics }, id)

/-- Add the children of a layer at so many indices from one on, given how to add one of them. -/
def addChildren [Layer α]
    (add : α → Construction α → Except Fault (Construction α × ElementId × String))
    (layer : α) (identifier : String) (id : ElementId) :
    (count index : Nat) → Construction α → Except Fault (Construction α)
  | 0, _, c => .ok c
  | count + 1, index, c =>
    match Layer.child? layer index with
    | none => .error (.missingChild (Layer.name layer) (Layer.childCount layer) index)
    | some child =>
      match add child c with
      | .error fault => .error fault
      | .ok (c, childId, childIdentifier) =>
        let tree := c.tree.appendChild id childId
        let tree :=
          if absorbs layer identifier child childIdentifier then tree.merge id childId else tree
        addChildren add layer identifier id count (index + 1) { c with tree }

/-- Add a layer with everything below it, which may take up to the given number of levels. The
answer names the new element and the layer's identifier. -/
def addLayer [Layer α] (registry : MetadataRegistry α) :
    (levels : Nat) → α → Construction α →
      Except Fault (Construction α × ElementId × String)
  | 0, layer, _ => .error (.tooDeep (Layer.name layer) maxDepth)
  | levels + 1, layer, c =>
    let (name, diagnostics) := readName layer
    let (c, id) := addElement registry layer name { c with diagnostics := c.diagnostics ++ diagnostics }
    match addChildren (addLayer registry levels) layer name.identifier id (Layer.childCount layer) 0 c
      with
    | .error fault => .error fault
    | .ok c => .ok ({ c with tree := c.tree.linkSiblings id }, id, name.identifier)

end Construction

/-- Build the tree of a layer. Names and metadata only cause diagnostics; a missing child, or a
layer below the deepest level, is a fault. -/
def BuiltTree.build {α : Type} [Layer α] (registry : MetadataRegistry α) (root : α) :
    Except Fault (BuiltTree α) :=
  match Construction.addLayer registry (Construction.maxDepth + 1) root {} with
  | .ok (c, id, _) => .ok { c with root := id }
  | .error fault => .error fault

end LayerPage
