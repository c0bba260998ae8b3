/-
Style rules: a selector and its declarations. A declaration written by hand is pinned, and inference
leaves pinned declarations alone. The pin is a part of the declaration, so only properties that have
a value are ever pinned.
-/
import LayerPage.SortedMap

namespace LayerPage

/-- The value of a property. -/
structure Declaration where
  value : String
  /-- Whether it was written by hand. -/
  pinned : Bool
  deriving DecidableEq

/-- A selector and the declarations for it, by property. -/
structure StyleRule where
  selector : String
  declarations : SortedMap Declaration := ∅
  deriving DecidableEq

namespace StyleRule

def get? (rule : StyleRule) (property : String) : Option String :=
  (rule.declarations.get? property).map (·.value)

def contains (rule : StyleRule) (property : String) : Bool :=
  rule.declarations.contains property

/-- Whether a property has a value written by hand. -/
def isPinned (rule : StyleRule) (property : String) : Bool :=
  (rule.declarations.get? property).any (·.pinned)

def isEmpty (rule : StyleRule) : Bool :=
  rule.declarations.isEmpty

def withSelector (rule : StyleRule) (selector : String) : StyleRule :=
  { rule with selector }

/-- Give a property a value; a pin that was on it stays. -/
def set (rule : StyleRule) (property value : String) : StyleRule :=
  { rule with
    declarations := rule.declarations.insert property ⟨value, rule.isPinned property⟩ }

/-- Give a property a value by hand. -/
def pin (rule : StyleRule) (property value : String) : StyleRule :=
  { rule with declarations := rule.declarations.insert property ⟨value, true⟩ }

/-- Pin several properties, one after another. -/
def pinAll (rule : StyleRule) (declarations : List (String × String)) : StyleRule :=
  declarations.foldl (fun rule (property, value) => rule.pin property value) rule

/-- Give a property an inferred value; nothing if it is pinned. -/
def infer? (rule : StyleRule) (property value : String) : Option StyleRule :=
  if rule.isPinned property then none else some (rule.set property value)

/-- Give a property an inferred value unless it is pinned. -/
def infer (rule : StyleRule) (property value : String) : StyleRule :=
  (rule.infer? property value).getD rule

/-- The pinned declarations, in property order. -/
def pinned (rule : StyleRule) : List (String × String) :=
  rule.declarations.toList.filterMap fun (property, declaration) =>
    if declaration.pinned then some (property, declaration.value) else none

/-- The rule without its declarations. -/
def cleared (rule : StyleRule) : StyleRule :=
  { selector := rule.selector }

/-- Whether the rule has anything to write: a selector and a declaration. -/
def isWritten (rule : StyleRule) : Bool :=
  !rule.selector.isEmpty && !rule.isEmpty

/-- Write one declaration on a line of its own. -/
def declarationLine (property value : String) : String :=
  "\t\t" ++ property ++ ": " ++ value ++ ";\n"

/-- Write the rule for an embedded style sheet; a rule with nothing to write is the empty text. -/
def toCss (rule : StyleRule) : String :=
  if rule.isWritten then
    "\t" ++ rule.selector ++ " \x7b\n"
      ++ String.join (rule.declarations.toList.map fun (property, declaration) =>
        declarationLine property declaration.value)
      ++ "\t\x7d\n\n"
  else ""

end StyleRule

end LayerPage
