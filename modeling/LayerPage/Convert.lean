/-
Converting a layered document into a page. Building and inference are separate passes: layout needs
the final parent and peers of every element, and those are known only when the whole tree is built.
-/
import LayerPage.Build
import LayerPage.Heuristic
import LayerPage.Layout
import LayerPage.Page

namespace LayerPage

/-- The handlers and heuristics of a conversion. -/
structure Converter (α : Type) where
  metadata : MetadataRegistry α := Metadata.builtin
  heuristics : List (Heuristic α) := Heuristic.builtin

/-- A page, and everything that was met on the way to it. -/
structure Conversion (α : Type) where
  page : Page α
  diagnostics : List Diagnostic

namespace Converter

variable {α : Type} [Layer α]

/-- The settings of a document: those of its second layer, if that has the name for it. -/
def readConfiguration (source : LayerDocument α) : Configuration × List Diagnostic :=
  match source.layer? 1 with
  | some group =>
    if Layer.name group = Configuration.groupName then Configuration.ofGroup group else ({}, [])
  | none => ({}, [])

/-- The page body has neither margin nor padding of its own. -/
def resetRoot (style : StyleRule) : StyleRule :=
  (style.infer "margin" "0px").infer "padding" "0px"

def refine (converter : Converter α) (tree : ElementTree α) (id : ElementId) :
    ElementTree α × List Diagnostic :=
  Heuristic.applyAll converter.heuristics (Layout.inferStyle tree id) id

/-- Layout and heuristics at several elements, one after another. -/
def refineAll (converter : Converter α) (tree : ElementTree α) (ids : List ElementId) :
    ElementTree α × List Diagnostic :=
  ids.foldl
    (fun (tree, diagnostics) id =>
      let (tree, found) := converter.refine tree id
      (tree, diagnostics ++ found))
    (tree, [])

/-- Convert a document. Its first layer becomes the page body, its second one may hold settings, and
the others are ignored. -/
def convert (converter : Converter α) (source : LayerDocument α) : Except Fault (Conversion α) :=
  match source.layer? 0 with
  | none => .error .noLayers
  | some body =>
    let (config, configDiagnostics) := readConfiguration source
    match BuiltTree.build converter.metadata body with
    | .error fault => .error fault
    | .ok built =>
      let tree := built.tree.modifyStyle built.root resetRoot
      let (tree, diagnostics) := converter.refineAll tree (tree.descendants built.root)
      .ok
        { page := { tree, root := built.root, stylesheetOrder := built.stylesheet, config }
          diagnostics := configDiagnostics ++ built.diagnostics ++ diagnostics }

end Converter

end LayerPage
