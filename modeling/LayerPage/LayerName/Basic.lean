/-
Layer names: what a designer writes on a layer to say which element it becomes. A name has up to
three clauses, in this order and with nothing between them:

    <tag>identifier[key="value", key="value"]

* the tag, ASCII letters in angle brackets, is `div` when the clause is absent; `<>` gives an empty
  tag, which marks an element that is never written out;
* the identifier is made of ASCII letters, `-` and `_`, and may be empty;
* the entries are separated by commas; a value is taken as it stands between its quotes.
-/
import LayerPage.SortedMap

namespace LayerPage

/-- The pieces of a layer name. -/
structure LayerName where
  /-- Tag of the element; empty for one that is not written out. -/
  tag : String
  /-- Identifier of the element; empty for none. -/
  identifier : String
  /-- Metadata entries by their full `namespace:key`. -/
  entries : SortedMap String
  deriving DecidableEq

namespace LayerName

/-- Tag of a name without a tag clause. -/
def defaultTag : String := "div"

/-- What stands in for a name that cannot be read: no tag, no identifier, no entries. -/
def blank : LayerName := ⟨"", "", ∅⟩

/-- Why a name cannot be read. -/
inductive Problem
  /-- The tag clause has no `>` after its letters. -/
  | unclosedTag
  | missingKey
  /-- There is no `=` after a key. -/
  | missingEquals
  /-- There is no quote before a value. -/
  | unquotedValue
  /-- There is no quote after a value. -/
  | unterminatedValue
  /-- Neither a comma nor the closing bracket follows an entry. -/
  | unseparatedEntry
  /-- Text is left over after the last clause. -/
  | trailingText
  deriving DecidableEq

def Problem.message : Problem → String
  | .unclosedTag => "expected '>' to close the tag name"
  | .missingKey => "expected an attribute key"
  | .missingEquals => "expected '=' after attribute key"
  | .unquotedValue => "attribute values must be double-quoted"
  | .unterminatedValue => "unterminated attribute value"
  | .unseparatedEntry => "expected ',' or ']' after attribute value"
  | .trailingText => "unexpected character"

end LayerName

end LayerPage
