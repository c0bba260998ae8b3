/-
Scaling samples to eight bits. A sample counts from zero to a greatest value, which is to become 255.
It is multiplied by a factor of 24 significant bits, the product is again rounded to 24 significant
bits, and the result is rounded to the nearest integer. The roundings show: with greatest value 14
the sample 7 becomes 127, not 128.
-/
namespace LayerPage.Raster

/-- The quotient rounded to the nearest integer, a half to the even one. -/
def roundHalfEven (n d : Nat) : Nat :=
  if d < 2 * (n % d) || (d == 2 * (n % d) && n / d % 2 == 1) then n / d + 1 else n / d

/-- A number `m / 2 ^ k`. -/
structure Binary where
  m : Nat
  k : Nat

/-- The quotient, at least 1 and less than `2 ^ 24`, rounded to 24 significant bits. -/
def Binary.ofQuotient (n d : Nat) : Binary :=
  let k := 23 - Nat.log2 (n / d)
  ⟨roundHalfEven (n <<< k) d, k⟩

/-- The nearest integer, a half going up. -/
def Binary.round (b : Binary) : Nat :=
  (2 * b.m + 1 <<< b.k) >>> (b.k + 1)

/-- Scale a sample with the given greatest value to eight bits. With greatest value zero everything
above zero becomes 255. -/
def scaleSample (greatest sample : Nat) : Nat :=
  if greatest = 255 then sample
  else if sample = 0 then 0
  else if greatest = 0 then 255
  else
    let factor := Binary.ofQuotient 255 greatest
    min 255 (Binary.ofQuotient (sample * factor.m) (1 <<< factor.k)).round

end LayerPage.Raster
