/-
Manifests in the JSON notation. A definition is an object, or an array of its fields in their order,
of which those at the end may be missing.
-/
import LayerPage.JsonValue.Parser
import LayerPage.Manifest.Definition

namespace LayerPage.JsonValue

/-- The members of an object, if all their names can be decoded. -/
def namedMembers : List (Option String × JsonValue) → Option (List (String × JsonValue)) :=
  List.mapM fun (name?, value) => name?.map (·, value)

/-- The fields of an object, or of an array that has no more items than there are names. -/
def fields? (names : List String) : JsonValue → Option (List (String × JsonValue))
  | object members => namedMembers members
  | array items => if items.length ≤ names.length then some (names.zip items) else none
  | _ => none

def items? : JsonValue → Option (List JsonValue)
  | array items => some items
  | _ => none

def text? : JsonValue → Option String
  | string text? => text?
  | _ => none

def int? : JsonValue → Option Int
  | number integer? => integer?
  | _ => none

/-- The kind of a layer: its name, or an object whose only member has that name and no value. -/
def kind? (levels : Nat) : JsonValue → Option LayerKind
  | string text? => text?.bind LayerKind.ofName?
  | object [(name?, null)] => if levels = 0 then none else name?.bind LayerKind.ofName?
  | _ => none

/-- How JSON values are taken apart; `null` stands for a value left out. -/
def definitionReader : DefinitionReader Option JsonValue where
  fail := none
  fields := fields?
  items := items?
  present?
    | null => some none
    | value => some (some value)
  text := text?
  integer := int?
  kind := kind?

/-- How many arrays and objects of a manifest may lie in each other. -/
def maxLevels : Nat := 127

/-- The layer definitions of a manifest in the JSON notation. -/
def layerDefinitions? (text : String) : Option (List LayerDefinition) := do
  definitionReader.manifest maxLevels (← parse text)

end LayerPage.JsonValue
