/-
Trees of elements. All elements live in one array and refer to each other by index; nothing is ever
removed from the array, and an element that was absorbed into another is only marked. An index that
belongs to no element is allowed everywhere: reading there gives nothing, and changes there change
nothing.
-/
import LayerPage.Element.Basic

namespace LayerPage

/-- The elements of a page, in the order of creation. -/
structure ElementTree (α : Type) where
  elements : Array (Element α) := #[]

namespace ElementTree

variable {α : Type}

/-- Number of elements, absorbed ones included. -/
def size (tree : ElementTree α) : Nat :=
  tree.elements.size

/-- All indices in the order of creation. -/
def ids (tree : ElementTree α) : List ElementId :=
  (List.range tree.size).map ElementId.mk

def get? (tree : ElementTree α) (id : ElementId) : Option (Element α) :=
  tree.elements[id.index]?

/-- Add an element, which gets the next index. -/
def insert (tree : ElementTree α) (element : Element α) : ElementTree α × ElementId :=
  (⟨tree.elements.push element⟩, ⟨tree.size⟩)

def modify (tree : ElementTree α) (id : ElementId) (f : Element α → Element α) : ElementTree α :=
  ⟨tree.elements.modify id.index f⟩

/-- Change the style rule of an element. -/
def modifyStyle (tree : ElementTree α) (id : ElementId) (f : StyleRule → StyleRule) :
    ElementTree α :=
  tree.modify id (·.modifyStyle f)

-- ====================================================================== links

/-- Put an element behind the other children of a parent. -/
def appendChild (tree : ElementTree α) (parent child : ElementId) : ElementTree α :=
  (tree.modify parent fun e => { e with children := e.children ++ [child] }).modify child
    fun e => { e with parent? := some parent }

/-- Take an element out of its parent's children and mark it as absorbed. -/
def detach (tree : ElementTree α) (id : ElementId) : ElementTree α :=
  let freed :=
    match (tree.get? id).bind (·.parent?) with
    | some parent =>
      tree.modify parent fun e => { e with children := e.children.filter (· ≠ id) }
    | none => tree
  freed.modify id fun e => { e with parent? := none, detached := true }

/-- Absorb one element into another: the target takes its attributes over its own, its layer, its
pinned declarations and, behind the children it has, its children. The absorbed element keeps its
attributes and its selector. -/
def merge (tree : ElementTree α) (target child : ElementId) : ElementTree α :=
  let tree := tree.detach child
  match tree.get? child with
  | none => tree
  | some absorbed =>
    let emptied := tree.modify child fun e => { e with children := [], style := e.style.cleared }
    let overlaid := emptied.modify target fun e =>
      { e with
        attributes := e.attributes.overlay absorbed.attributes
        layer := absorbed.layer
        style := e.style.pinAll absorbed.style.pinned }
    absorbed.children.foldl (fun tree grandchild => tree.appendChild target grandchild) overlaid

/-- Tell every child of a parent who its peers are. -/
def linkSiblings (tree : ElementTree α) (parent : ElementId) : ElementTree α :=
  match tree.get? parent with
  | none => tree
  | some e =>
    e.children.foldl (fun tree child => tree.modify child ({ · with siblings := e.children })) tree

-- ======================================================================= flow

/-- Whether one place comes no later than another in flow: higher up, or level and no further to
the right. -/
def flowLe (a b : Bounds) : Bool :=
  a.top < b.top || (a.top == b.top && a.left ≤ b.left)

/-- The bounds of the element at an index. -/
def boundsAt [Layer α] (tree : ElementTree α) (id : ElementId) : Bounds :=
  ((tree.get? id).map (·.bounds)).getD {}

/-- The peers of an element in flow order; level peers at the same distance from the left keep their
layer order. -/
def flowOrder [Layer α] (tree : ElementTree α) (id : ElementId) : List ElementId :=
  (((tree.get? id).map (·.siblings)).getD []).mergeSort
    fun a b => flowLe (tree.boundsAt a) (tree.boundsAt b)

/-- What stands before the first occurrence of an item. -/
def before? {β : Type} [DecidableEq β] (item : β) : List β → Option β
  | a :: b :: rest => if a = item then none else if b = item then some a else before? item (b :: rest)
  | _ => none

/-- What stands after the first occurrence of an item. -/
def after? {β : Type} [DecidableEq β] (item : β) : List β → Option β
  | a :: b :: rest => if a = item then some b else after? item (b :: rest)
  | _ => none

/-- The peer before an element in flow. -/
def prevInFlow? [Layer α] (tree : ElementTree α) (id : ElementId) : Option ElementId :=
  before? id (tree.flowOrder id)

/-- The peer after an element in flow. -/
def nextInFlow? [Layer α] (tree : ElementTree α) (id : ElementId) : Option ElementId :=
  after? id (tree.flowOrder id)

-- ================================================================ relationship

def parent? (tree : ElementTree α) (id : ElementId) : Option (Element α) :=
  (tree.get? id).bind (·.parent?) |>.bind tree.get?

/-- The kind of the layer behind the parent of an element. -/
def parentKind? [Layer α] (tree : ElementTree α) (id : ElementId) : Option LayerKind :=
  (tree.parent? id).map fun e => Layer.kind e.layer

/-- The elements down to a number of levels, parents before children. -/
def descendantsWithin (tree : ElementTree α) : Nat → ElementId → List ElementId
  | 0, _ => []
  | levels + 1, id =>
    id :: (((tree.get? id).map (·.children)).getD []).flatMap (tree.descendantsWithin levels)

/-- The elements below a root, itself included, parents before children. No path without a cycle has
more levels than there are elements. -/
def descendants (tree : ElementTree α) (root : ElementId) : List ElementId :=
  tree.descendantsWithin tree.size root

end ElementTree

end LayerPage
