/-
Markup: the visible part of a tree of elements as it is written out. An element with an empty tag is
left out with everything below it. Children come last first: layers are listed from the top, markup
from the back.
-/
import LayerPage.Element.Tree
import LayerPage.Text.Replace

namespace LayerPage

/-- An element as it is written out. -/
inductive Markup
  | element (tag : String) (attributes : SortedMap String) (children : List Markup)

namespace Markup

-- ===================================================================== escaping

/-- Replace the characters that have a meaning in markup, ampersands first. -/
def escapeChars (cs : List Char) : List Char :=
  let cs := Text.replaceChar '&' "&amp;".toList cs
  let cs := Text.replaceChar '"' "&quot;".toList cs
  let cs := Text.replaceChar '<' "&lt;".toList cs
  Text.replaceChar '>' "&gt;".toList cs

/-- Make a text fit to stand in markup or in a quoted value. -/
def escape (text : String) : String :=
  String.ofList (escapeChars text.toList)

-- ================================================================== remarks

/-- Text written after the opening and the closing tag of an element that has an identifier or a
class. In it `tag_name` stands for the tag and `tag_id` for the identifier or class. -/
structure Remark where
  before : String := ""
  after : String := ""
  deriving DecidableEq

/-- Read a remark: a bar separates the two texts, the second may be missing. -/
def Remark.ofTemplate (template : String) : Remark :=
  match Text.splitAt? '|' template.toList with
  | some (before, after) => ⟨String.ofList before, String.ofList after⟩
  | none => ⟨template, ""⟩

/-- How a remark calls an element: `#` and the identifier, or else `.` and the class. -/
def reference? (attributes : SortedMap String) : Option String :=
  match (attributes.get? "id").filter (!·.isEmpty) with
  | some identifier => some ("#" ++ identifier)
  | none => ((attributes.get? "class").filter (!·.isEmpty)).map ("." ++ ·)

/-- Fill in a remark for an element; nothing for one without identifier and class. -/
def expand (template tag : String) (attributes : SortedMap String) : String :=
  match reference? attributes with
  | some reference =>
    String.ofList (Text.replaceAll "tag_id".toList reference.toList
      (Text.replaceAll "tag_name".toList tag.toList template.toList))
  | none => ""

-- ====================================================================== writing

def attributesText (attributes : SortedMap String) : String :=
  String.join (attributes.toList.map fun (key, value) =>
    " " ++ key ++ "=\"" ++ escape value ++ "\"")

/-- Tabs for a level. -/
def indent (level : Nat) : String :=
  String.ofList (List.replicate level '\t')

mutual

/-- Write an element that lies on a level. The caller has written the tabs before it. -/
def render (remark : Remark) (level : Nat) : Markup → String
  | element tag attributes children =>
    "<" ++ tag ++ attributesText attributes ++ ">" ++ expand remark.before tag attributes ++ "\n"
      ++ renderAll remark (level + 1) children
      ++ indent level ++ "</" ++ tag ++ ">" ++ expand remark.after tag attributes ++ "\n"

/-- Write elements that lie on a level, each after its tabs. -/
def renderAll (remark : Remark) (level : Nat) : List Markup → String
  | [] => ""
  | child :: rest =>
    indent level ++ render remark level child ++ renderAll remark level rest

end

end Markup

namespace ElementTree

variable {α : Type}

/-- What is written of an element and of those down to a number of levels below it. -/
def markupWithin? (tree : ElementTree α) : Nat → ElementId → Option Markup
  | 0, _ => none
  | levels + 1, id =>
    match tree.get? id with
    | none => none
    | some element =>
      if element.tag.isEmpty then none
      else
        some (.element element.tag element.attributes
          (element.children.reverse.filterMap (tree.markupWithin? levels)))

/-- What is written of a tree, if its root is written at all. No path without a cycle has more levels
than there are elements. -/
def markup? (tree : ElementTree α) (root : ElementId) : Option Markup :=
  tree.markupWithin? tree.size root

end ElementTree

end LayerPage
