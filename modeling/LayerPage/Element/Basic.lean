/-
Elements: what a layer becomes on the page. An element knows its place in the tree by the indices of
its parent, its children and its peers.
-/
import LayerPage.Layer
import LayerPage.Style

namespace LayerPage

/-- Index of an element, counted in the order of creation. -/
structure ElementId where
  index : Nat
  deriving DecidableEq

instance : ToString ElementId :=
  ⟨fun id => "#" ++ toString id.index⟩

/-- One element of the page. -/
structure Element (α : Type) where
  /-- The tag; empty for an element that is not written out. -/
  tag : String
  attributes : SortedMap String
  style : StyleRule
  /-- The layer it takes its geometry and pixels from. -/
  layer : α
  parent? : Option ElementId := none
  /-- The children, topmost layer first. -/
  children : List ElementId := []
  /-- The children of its parent, itself included. -/
  siblings : List ElementId := []
  /-- Whether it was absorbed into another element. -/
  detached : Bool := false

namespace Element

variable {α : Type}

/-- A new element. Its selector is its identifier if it has one, else its tag. -/
def create (tag identifier : String) (layer : α) : Element α :=
  if identifier.isEmpty then
    { tag, attributes := ∅, style := { selector := tag }, layer }
  else
    { tag, attributes := SortedMap.empty.insert "id" identifier
      style := { selector := "#" ++ identifier }, layer }

def attribute? (element : Element α) (key : String) : Option String :=
  element.attributes.get? key

def setAttribute (element : Element α) (key value : String) : Element α :=
  { element with attributes := element.attributes.insert key value }

/-- The identifier, if there is one and it is not empty. -/
def identifier? (element : Element α) : Option String :=
  (element.attribute? "id").filter (!·.isEmpty)

def modifyStyle (element : Element α) (f : StyleRule → StyleRule) : Element α :=
  { element with style := f element.style }

/-- Place and size of the layer behind the element. -/
def bounds [Layer α] (element : Element α) : Bounds :=
  Layer.bounds element.layer

/-- Name of the layer behind the element. -/
def layerName [Layer α] (element : Element α) : String :=
  Layer.name element.layer

end Element

end LayerPage
