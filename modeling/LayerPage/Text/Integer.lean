/-
Integers written with digits: an optional sign and one or more digits of a base, nothing else. The
readers refuse an empty run of digits and a second sign; leading zeros are allowed.
-/
namespace LayerPage.Text

/-- The value of a digit in bases up to sixteen, letters in either case. -/
def digit? (base : Nat) (c : Char) : Option Nat :=
  let value :=
    if '0' ≤ c ∧ c ≤ '9' then some (c.toNat - '0'.toNat)
    else if 'a' ≤ c ∧ c ≤ 'f' then some (c.toNat - 'a'.toNat + 10)
    else if 'A' ≤ c ∧ c ≤ 'F' then some (c.toNat - 'A'.toNat + 10)
    else none
  value.filter (· < base)

/-- Read digits on after a number already read: each one multiplies it by the base and adds. -/
def digitsFrom? (base : Nat) : Nat → List Char → Option Nat
  | read, [] => some read
  | read, c :: cs => (digit? base c).bind fun d => digitsFrom? base (base * read + d) cs

/-- One or more digits. -/
def digits? (base : Nat) : List Char → Option Nat
  | [] => none
  | cs => digitsFrom? base 0 cs

/-- An optional plus sign and digits. -/
def unsigned? (base : Nat) : List Char → Option Nat
  | '+' :: cs => digits? base cs
  | cs => digits? base cs

/-- An optional sign and digits. -/
def signed? (base : Nat) : List Char → Option Int
  | '-' :: cs => (digits? base cs).map fun n => -(n : Int)
  | cs => (unsigned? base cs).map Int.ofNat

/-- Whether an integer fits in a signed word of the given number of bits. -/
def fitsSigned (bits : Nat) (n : Int) : Bool :=
  let bound : Int := Int.ofNat (1 <<< (bits - 1))
  n < bound && -bound ≤ n

end LayerPage.Text
