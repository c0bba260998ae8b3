/-
What a manifest says: a list of layer definitions. Both notations of a manifest write a definition as
fields with names, most of which may be left out; a notation only has to tell how its values are
taken apart, and `DefinitionReader.layers` does the rest.
-/
import LayerPage.Layer
import LayerPage.Text.Integer

namespace LayerPage

/-- What a manifest says about one layer. -/
structure LayerDefinition where
  name : String
  x : Int32 := 0
  y : Int32 := 0
  width : Int32 := 0
  height : Int32 := 0
  /-- A colour for all its pixels. -/
  fill? : Option String := none
  /-- A raster for its pixels, by the path from the directory of the manifest. -/
  image? : Option String := none
  kind? : Option LayerKind := none
  children : List LayerDefinition := []

def LayerKind.ofName? : String → Option LayerKind
  | "normal" => some .normal
  | "folder" => some .folder
  | _ => none

/-- How the values of a notation are taken apart. Every reader may fail. -/
structure DefinitionReader (m : Type → Type) (ν : Type) where
  fail : {α : Type} → m α
  /-- The fields of a value, of which only the given names matter. A value without names for its
  fields lists them in the given order. -/
  fields : List String → ν → m (List (String × ν))
  items : ν → m (List ν)
  /-- The value itself, unless it stands for a value left out. -/
  present? : ν → m (Option ν)
  text : ν → m String
  integer : ν → m Int
  /-- The kind of a layer, within so many levels of nesting. -/
  kind : Nat → ν → m LayerKind

namespace DefinitionReader

variable {m : Type → Type} {ν : Type} [Monad m] (reader : DefinitionReader m ν)

/-- The names of the fields of a definition. -/
def layerFields : List String :=
  ["name", "x", "y", "width", "height", "fill", "image", "kind", "children"]

/-- The values of the fields of one name. -/
def valuesOf (name : String) (fields : List (String × ν)) : List ν :=
  (fields.filter (·.1 == name)).map (·.2)

/-- Read a field that must be there, once. -/
def required {α : Type} (fields : List (String × ν)) (name : String) (read : ν → m α) : m α :=
  match valuesOf name fields with
  | [value] => read value
  | _ => reader.fail

/-- Read a field that may be left out, and may not be repeated. -/
def optional {α : Type} (fields : List (String × ν)) (name : String) (default : α) (read : ν → m α) :
    m α :=
  match valuesOf name fields with
  | [] => pure default
  | [value] => read value
  | _ => reader.fail

/-- Read a value that may also stand for none. -/
def orNone {α : Type} (read : ν → m α) (value : ν) : m (Option α) := do
  match ← reader.present? value with
  | some value => return some (← read value)
  | none => return none

/-- Read an integer of 32 bits. -/
def int32 (value : ν) : m Int32 := do
  let n ← reader.integer value
  if Text.fitsSigned 32 n then return .ofInt n else reader.fail

mutual

/-- Read a list of layers within so many levels of nesting. -/
def layers : Nat → ν → m (List LayerDefinition)
  | 0, _ => reader.fail
  | levels + 1, value => do (← reader.items value).mapM (layer levels)

/-- Read one layer within so many levels of nesting. -/
def layer : Nat → ν → m LayerDefinition
  | 0, _ => reader.fail
  | levels + 1, value => do
    let fields ← reader.fields layerFields value
    return {
      name := ← reader.required fields "name" reader.text
      x := ← reader.optional fields "x" 0 reader.int32
      y := ← reader.optional fields "y" 0 reader.int32
      width := ← reader.optional fields "width" 0 reader.int32
      height := ← reader.optional fields "height" 0 reader.int32
      fill? := ← reader.optional fields "fill" none (reader.orNone reader.text)
      image? := ← reader.optional fields "image" none (reader.orNone reader.text)
      kind? := ← reader.optional fields "kind" none (reader.orNone (reader.kind levels))
      children := ← reader.optional fields "children" [] (layers levels) }

end

/-- Read a whole manifest: its layers are one field of it. -/
def manifest (levels : Nat) (value : ν) : m (List LayerDefinition) :=
  match levels with
  | 0 => reader.fail
  | levels + 1 => do
    reader.optional (← reader.fields ["layers"] value) "layers" [] (reader.layers levels)

end DefinitionReader

end LayerPage
