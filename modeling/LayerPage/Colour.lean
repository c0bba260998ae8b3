/-
Colours with an opacity, eight bits each, written in hexadecimal as `#RGB`, `#RRGGBB` or
`#RRGGBBAA`, the `#` being optional.
-/
import LayerPage.Fault
import LayerPage.Text.Blank
import LayerPage.Text.Integer

namespace LayerPage

/-- A colour: red, green, blue, and alpha for its opacity. -/
structure Colour where
  r : UInt8
  g : UInt8
  b : UInt8
  a : UInt8 := 255
  deriving DecidableEq, Inhabited

namespace Colour

/-- Read one digit that stands for two of the same. -/
def doubled? (c : Char) : Option UInt8 :=
  (Text.digit? 16 c).map fun d => (17 * d).toUInt8

/-- Read a number of two characters; the first of them may be a plus sign. -/
def byte? (c d : Char) : Option UInt8 :=
  (Text.unsigned? 16 [c, d]).map Nat.toUInt8

/-- Read the characters after the `#`. A colour without alpha is opaque. -/
def ofDigits? : List Char → Option Colour
  | [r, g, b] => do
    return { r := ← doubled? r, g := ← doubled? g, b := ← doubled? b }
  | [r, r', g, g', b, b'] => do
    return { r := ← byte? r r', g := ← byte? g g', b := ← byte? b b' }
  | [r, r', g, g', b, b', a, a'] => do
    return { r := ← byte? r r', g := ← byte? g g', b := ← byte? b b', a := ← byte? a a' }
  | _ => none

/-- Read a colour; blanks around it do not matter. -/
def ofHex? (text : String) : Option Colour :=
  let cs := Text.trim text.toList
  ofDigits? ((Text.dropFirst? '#' cs).getD cs)

/-- Read a colour, or say which text is none. -/
def ofHex (text : String) : Except Fault Colour :=
  match ofHex? text with
  | some colour => .ok colour
  | none => .error (.colour (String.ofList (Text.trim text.toList)))

/-- A byte as two upper-case hexadecimal digits. -/
def hexByte (n : UInt8) : List Char :=
  [(Nat.digitChar (n.toNat / 16)).toUpper, (Nat.digitChar (n.toNat % 16)).toUpper]

/-- Write a colour; alpha only where it is not opaque. -/
def toHex (c : Colour) : String :=
  String.ofList ('#' :: hexByte c.r ++ hexByte c.g ++ hexByte c.b
    ++ if c.a = 255 then [] else hexByte c.a)

/-- Write a colour for a style sheet, without alpha. -/
def toCss (c : Colour) : String :=
  "rgb(" ++ toString c.r.toNat ++ "," ++ toString c.g.toNat ++ "," ++ toString c.b.toNat ++ ")"

/-- Whether nothing of the colour can be seen. -/
def isTransparent (c : Colour) : Bool :=
  c.a == 0

end Colour

end LayerPage
