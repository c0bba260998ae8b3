/-
Values of the JSON notation (RFC 8259), as far as a manifest tells them apart: of a number only
whether it is an integer and which one, of a string only what it decodes to.
-/
namespace LayerPage

/-- A JSON value. -/
inductive JsonValue
  | null
  | bool (value : Bool)
  /-- A number; its value if it is written as an integer. -/
  | number (integer? : Option Int)
  /-- A string; its text unless it holds half of a surrogate pair. -/
  | string (text? : Option String)
  | array (items : List JsonValue)
  /-- An object; its members in the order they are written, repeated names included. -/
  | object (members : List (Option String × JsonValue))

end LayerPage
