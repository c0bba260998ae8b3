/-
Layout: style properties inferred from the geometry of the layers. Every write is an inference, so
pinned properties stay as they are. It runs once for each element of a finished tree, and an element
writes to its own rule, to its parent's, and to that of the peer after it in flow.
-/
import LayerPage.Element.Tree
import LayerPage.Length

namespace LayerPage.Layout

open Length (px parsePx? saturatingSub)

variable {α : Type} [Layer α]

/-- The colour of the top left pixel is the background, unless it is transparent. -/
def background (tree : ElementTree α) (id : ElementId) : ElementTree α :=
  tree.modify id fun e =>
    match Layer.sample? e.layer 0 0 with
    | some colour =>
      if colour.isTransparent then e else e.modifyStyle (·.infer "background" colour.toCss)
    | none => e

/-- Width and height are those of the layer, except on an element without a parent. -/
def dimensions (tree : ElementTree α) (id : ElementId) : ElementTree α :=
  tree.modify id fun e =>
    if e.parent?.isNone then e
    else
      e.modifyStyle fun style =>
        (style.infer "width" (px e.bounds.width.toInt)).infer "height" (px e.bounds.height.toInt)

/-- Margins that centre the element, if it is as far from the right edge of its parent as from the
left one. -/
def centre (parent own : Bounds) (style : StyleRule) : StyleRule :=
  if parent.right - own.right = own.left - parent.left then
    (style.infer "margin-left" "auto").infer "margin-right" "auto"
  else style

/-- Padding above the first child. The padding adds to the height of the box, so a height in pixels
shrinks by as much, unless the padding could not be written. -/
def padTop (offset : Int) (style : StyleRule) : StyleRule :=
  match style.infer? "padding-top" (px offset) with
  | none => style
  | some style =>
    match (style.get? "height").bind parsePx? with
    | some height => style.infer "height" (px (max (saturatingSub height offset) 0))
    | none => style

/-- The distance to the next peer in flow: a margin above the peer if that lies below, and floats
with a margin between them if both are level. -/
def spaceNext (tree : ElementTree α) (id : ElementId) (own : Bounds) (next : ElementId) :
    ElementTree α :=
  let nextBounds := tree.boundsAt next
  let gap := nextBounds.top - own.bottom
  let tree :=
    if gap > 0 then tree.modifyStyle next (·.infer "margin-top" (px gap)) else tree
  if nextBounds.top = own.top then
    let tree := tree.modifyStyle id (·.infer "float" "left")
    let tree := tree.modifyStyle next (·.infer "float" "left")
    let gap := nextBounds.left - own.right
    if gap > 0 then tree.modifyStyle id (·.infer "margin-right" (px gap)) else tree
  else tree

/-- Margins, padding and floats of an element inside a normal layer. -/
def boxModel (tree : ElementTree α) (id parentId : ElementId) : ElementTree α :=
  let parent := tree.boundsAt parentId
  let own := tree.boundsAt id
  let tree := tree.modifyStyle id (centre parent own)
  let prev? := tree.prevInFlow? id
  let next? := tree.nextInFlow? id
  let offset := own.top - parent.top
  let tree :=
    if prev?.isNone && offset > 0 then tree.modifyStyle parentId (padTop offset) else tree
  match next? with
  | some next => spaceNext tree id own next
  | none => tree

def inferStyle (tree : ElementTree α) (id : ElementId) : ElementTree α :=
  let tree := dimensions (background tree id) id
  match (tree.get? id).bind (·.parent?) with
  | some parent =>
    if tree.parentKind? id = some .normal then boxModel tree id parent else tree
  | none => tree

end LayerPage.Layout
