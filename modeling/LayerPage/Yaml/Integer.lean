/-
Integers in YAML scalars: decimal, or with a mark for another base, each with an optional sign. A
decimal integer of more than one digit does not start with a zero.
-/
import LayerPage.Text.Integer

namespace LayerPage.Yaml

/-- Read digits with the mark of their base in front of them. -/
def markedDigits? : List Char → Option Nat
  | '0' :: 'x' :: cs => Text.digits? 16 cs
  | '0' :: 'o' :: cs => Text.digits? 8 cs
  | '0' :: 'b' :: cs => Text.digits? 2 cs
  | ['0'] => some 0
  | '0' :: _ => none
  | cs => Text.digits? 10 cs

def integer? : List Char → Option Int
  | '+' :: cs => (markedDigits? cs).map Int.ofNat
  | '-' :: cs => (markedDigits? cs).map fun n => -(n : Int)
  | cs => (markedDigits? cs).map Int.ofNat

end LayerPage.Yaml
