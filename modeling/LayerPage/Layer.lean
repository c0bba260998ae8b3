/-
The layer trees a page is made from. Reading a design file is somebody else's work: any type whose
values have a name, bounds, a kind, children and pixels is a type of layers. A layer names its
children by index and says how many there are; nothing keeps it from saying too much, or from being
its own descendant.
-/
import LayerPage.Colour

namespace LayerPage

/-- Whether a layer has pixels of its own or groups other layers. -/
inductive LayerKind
  | normal
  | folder
  deriving DecidableEq

/-- Place and size of a layer in pixels of the document, 32 bits each. -/
structure Bounds where
  x : Int32 := 0
  y : Int32 := 0
  width : Int32 := 0
  height : Int32 := 0
  deriving DecidableEq, Inhabited

namespace Bounds

def left (b : Bounds) : Int := b.x.toInt

def top (b : Bounds) : Int := b.y.toInt

/-- The right edge, which may lie beyond 32 bits. -/
def right (b : Bounds) : Int := b.x.toInt + b.width.toInt

/-- The bottom edge, which may lie beyond 32 bits. -/
def bottom (b : Bounds) : Int := b.y.toInt + b.height.toInt

end Bounds

/-- The types whose values are layers. -/
class Layer (α : Type) where
  /-- The name as the designer typed it. -/
  name : α → String
  bounds : α → Bounds
  kind : α → LayerKind
  /-- How many children it says it has. -/
  childCount : α → Nat
  /-- The child at an index, if there is one. -/
  child? : α → Nat → Option α
  /-- The pixel at a distance from the top left corner, if there is one. -/
  sample? : α → Nat → Nat → Option Colour

namespace Layer

variable {α : Type} [Layer α]

/-- The children that exist among so many indices from one on. -/
def childrenFrom (layer : α) : (count index : Nat) → List α
  | 0, _ => []
  | count + 1, index =>
    match child? layer index with
    | some child => child :: childrenFrom layer count (index + 1)
    | none => childrenFrom layer count (index + 1)

/-- The children that exist among those the layer says it has. -/
def presentChildren (layer : α) : List α :=
  childrenFrom layer (childCount layer) 0

end Layer

/-- A document: its top-level layers by index. Layer 0 becomes the page body, and layer 1 holds
settings if it is named so. -/
structure LayerDocument (α : Type) where
  layer? : Nat → Option α

/-- The document with the given top-level layers. -/
def LayerDocument.ofList {α : Type} (layers : List α) : LayerDocument α :=
  ⟨fun index => layers[index]?⟩

end LayerPage
