/-
Heuristics: rules for patterns of layout that boxes do not show. Each one sees an element after its
layout was inferred and may change the tree. They run in order; one that fails becomes a diagnostic
and does not keep the others from running. What it had changed by then stays changed.
-/
import LayerPage.Diagnostic
import LayerPage.Element.Tree

namespace LayerPage

/-- A rule applied to every element after layout. -/
structure Heuristic (α : Type) where
  name : String
  /-- Change the tree at an element, or say why that cannot be done. -/
  change : ElementTree α → ElementId → Except Fault (ElementTree α)
  /-- The tree that is left when a change fails: as it was, unless it fails halfway. -/
  abandoned : ElementTree α → ElementId → ElementTree α := fun tree _ => tree

namespace Heuristic

variable {α : Type}

/-- The tree after a heuristic saw an element, whether it failed or not. -/
def after (heuristic : Heuristic α) (tree : ElementTree α) (id : ElementId) : ElementTree α :=
  match heuristic.change tree id with
  | .ok changed => changed
  | .error _ => heuristic.abandoned tree id

/-- Code of the diagnostics of this module. -/
def code : String := "strata::heuristic"

/-- An element without an identifier, but with a class, is selected by its tag and the first of its
classes. -/
def classSelector : Heuristic α where
  name := "class-selector"
  change tree id :=
    match tree.get? id with
    | none => .ok tree
    | some element =>
      match element.identifier?, element.attribute? "class" with
      | none, some classes =>
        match Text.firstWord? classes.toList with
        | some first =>
          .ok (tree.modifyStyle id
            (·.withSelector (element.tag ++ "." ++ String.ofList first)))
        | none => .error (.heuristic "class-selector" "class attribute is empty")
      | _, _ => .ok tree

/-- A parent hides the overflow of its floating children, so that it still encloses them. -/
def containFloats : Heuristic α where
  name := "contain-floats"
  change tree id :=
    match tree.get? id with
    | none => .ok tree
    | some element =>
      match element.style.get? "float", element.parent? with
      | some _, some parent => .ok (tree.modifyStyle parent (·.infer "overflow" "hidden"))
      | _, _ => .ok tree

/-- The heuristics that always run. -/
def builtin : List (Heuristic α) :=
  [classSelector, containFloats]

/-- Run heuristics at one element, in order. -/
def applyAll [Layer α] (heuristics : List (Heuristic α)) (tree : ElementTree α) (id : ElementId) :
    ElementTree α × List Diagnostic :=
  heuristics.foldl
    (fun (tree, diagnostics) heuristic =>
      match heuristic.change tree id with
      | .ok tree => (tree, diagnostics)
      | .error fault =>
        let tree := heuristic.abandoned tree id
        (tree, diagnostics ++
          [{ code, message := fault.message, layer? := (tree.get? id).map (·.layerName) }]))
    (tree, [])

end Heuristic

end LayerPage
