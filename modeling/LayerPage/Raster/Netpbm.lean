/-
Reading Netpbm images: grey maps and pixel maps, samples written as decimal numbers or as bytes. The
header is the magic number, the width, the height and the greatest sample, separated by blanks. A
comment runs from `#` to the end of its line, line break included, and so does not separate words.
Exactly one blank follows the greatest sample. Only samples of eight bits are read.
-/
import LayerPage.Raster.Basic
import LayerPage.Raster.Sample

namespace LayerPage.Raster.Netpbm

/-- The bytes that separate words. -/
def isSeparator (b : UInt8) : Bool :=
  b == 0x20 || (0x09 ≤ b && b ≤ 0x0D)

/-- The bytes that end a comment. -/
def isLineBreak (b : UInt8) : Bool :=
  b == 0x0A || b == 0x0D

/-- The start of a comment. -/
def commentMark : UInt8 := 0x23

/-- Read the next word of a header and one separator after it; `word` has been read already. -/
def readHeaderWord? (inComment : Bool) (word : List UInt8) :
    List UInt8 → Option (List UInt8 × List UInt8)
  | [] => if word.isEmpty then none else some (word, [])
  | b :: rest =>
    if inComment then readHeaderWord? (!isLineBreak b) word rest
    else if b == commentMark then readHeaderWord? true word rest
    else if isSeparator b then
      if word.isEmpty then readHeaderWord? false word rest else some (word, rest)
    else if b < 0x80 then readHeaderWord? false (word ++ [b]) rest
    else none

/-- A word as a number below a limit. -/
def number? (limit : Nat) (word : List UInt8) : Option Nat :=
  (Text.unsigned? 10 (word.map fun b => Char.ofNat b.toNat)).filter (· < limit)

/-- Read the next number of a header. -/
def readHeaderNumber? (bytes : List UInt8) : Option (Nat × List UInt8) := do
  let (word, rest) ← readHeaderWord? false [] bytes
  return (← number? UInt32.size word, rest)

/-- Read so many samples written as bytes. -/
def readBytes? : Nat → List UInt8 → Option (List Nat)
  | 0, _ => some []
  | _ + 1, [] => none
  | count + 1, b :: rest => (readBytes? count rest).map (b.toNat :: ·)

/-- Read so many samples written as decimal numbers. -/
def readNumbers? : Nat → List UInt8 → Option (List Nat)
  | 0, _ => some []
  | count + 1, bytes => do
    let bytes := bytes.dropWhile isSeparator
    let sample ← number? 256 (bytes.takeWhile (!isSeparator ·))
    let samples ← readNumbers? count ((bytes.dropWhile (!isSeparator ·)).drop 1)
    return sample :: samples

/-- Make colours of samples: one for each grey value, or one for each three samples. -/
def colours (grey : Bool) : List UInt8 → List Colour
  | [] => []
  | v :: rest =>
    if grey then { r := v, g := v, b := v } :: colours grey rest
    else
      match rest with
      | g :: b :: rest => { r := v, g, b } :: colours grey rest
      | _ => []

/-- The kind of image a magic number stands for: grey or not, and samples as bytes or not. -/
def kind? : List UInt8 → Option (Bool × Bool × List UInt8)
  | 0x50 :: 0x32 :: rest => some (true, false, rest)
  | 0x50 :: 0x33 :: rest => some (false, false, rest)
  | 0x50 :: 0x35 :: rest => some (true, true, rest)
  | 0x50 :: 0x36 :: rest => some (false, true, rest)
  | _ => none

/-- Read an image; whatever follows the last sample does not matter. -/
def decode? (bytes : List UInt8) : Option Raster := do
  let (grey, binary, rest) ← kind? bytes
  let (width, rest) ← readHeaderNumber? rest
  let (height, rest) ← readHeaderNumber? rest
  let (greatest, rest) ← readHeaderNumber? rest
  if 255 < greatest then none
  let count := width * height * if grey then 1 else 3
  let samples ← if binary then readBytes? count rest else readNumbers? count rest
  let scaled := samples.map fun sample => (scaleSample greatest sample).toUInt8
  return { width, height, pixels := (colours grey scaled).toArray }

end LayerPage.Raster.Netpbm
