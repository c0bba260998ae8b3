/-
Lengths in pixels, as style sheets write them: an integer and `px`. Lengths that are read back and
differences of lengths stay within 64 bits.
-/
import LayerPage.Text.Blank
import LayerPage.Text.Integer

namespace LayerPage.Length

def bits : Nat := 64

def px (n : Int) : String :=
  toString n ++ "px"

/-- Read a length of at most 64 bits; blanks may stand around the text and before `px`. -/
def parsePx? (text : String) : Option Int := do
  let digits ← Text.dropEnding? ['p', 'x'] (Text.trim text.toList)
  let n ← Text.signed? 10 (Text.trim digits)
  if Text.fitsSigned bits n then some n else none

/-- The difference of two lengths, or the end of the range on the side where it leaves it. -/
def saturatingSub (a b : Int) : Int :=
  max Int64.minValue.toInt (min Int64.maxValue.toInt (a - b))

end LayerPage.Length
