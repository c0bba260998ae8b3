/-
The tokens of a YAML text. Blocks are marked by tokens of their own where their indentation starts
and ends; a key is marked before it even where the text shows it only by the colon behind it.
-/
namespace LayerPage.Yaml

/-- How a scalar is written, as far as it matters for its meaning. -/
inductive ScalarStyle
  | plain
  | literal
  | other
  deriving DecidableEq

inductive Token
  | versionDirective (major minor : Nat)
  | tagDirective (handle start : List Char)
  | documentStart
  | documentEnd
  | streamEnd
  | blockSequenceStart
  | blockMappingStart
  | blockEnd
  | flowSequenceStart
  | flowSequenceEnd
  | flowMappingStart
  | flowMappingEnd
  | blockEntry
  | flowEntry
  | key
  | value
  | alias (name : List Char)
  | anchor (name : List Char)
  | tag (handle suffix : List Char)
  | scalar (text : List Char) (style : ScalarStyle)
  deriving DecidableEq

end LayerPage.Yaml
