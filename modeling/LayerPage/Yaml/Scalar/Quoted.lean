/-
Quoted scalars. In single quotes a quote is written twice, and nothing else is special. In double
quotes a backslash starts an escape, or drops the line break behind it.
-/
import LayerPage.Text.Integer
import LayerPage.Yaml.Scalar.Gap

namespace LayerPage.Yaml

/-- The two kinds of quotes. -/
inductive Quote
  | single
  | double
  deriving DecidableEq

def Quote.char : Quote → Char
  | .single => '\''
  | .double => '"'

/-- What a backslash and a character stand for. -/
def escaped? : Char → Option Char
  | '0' => some '\x00'
  | 'a' => some '\x07'
  | 'b' => some '\x08'
  | 't' => some '\t'
  | '\t' => some '\t'
  | 'n' => some '\n'
  | 'v' => some '\x0b'
  | 'f' => some '\x0c'
  | 'r' => some '\r'
  | 'e' => some '\x1b'
  | ' ' => some ' '
  | '"' => some '"'
  | '/' => some '/'
  | '\\' => some '\\'
  | 'N' => some '\u0085'
  | '_' => some '\u00a0'
  | 'L' => some '\u2028'
  | 'P' => some '\u2029'
  | _ => none

/-- How many hexadecimal digits follow a backslash and a character. -/
def escapeLength? : Char → Option Nat
  | 'x' => some 2
  | 'u' => some 4
  | 'U' => some 8
  | _ => none

/-- The character with the given number, if it is the number of one. -/
def charOf? (n : Nat) : Option Char :=
  if n < 0xD800 || (0xDFFF < n && n ≤ 0x10FFFF) then some (.ofNat n) else none

/-- Read an escape whose backslash is already read. -/
def escape? (gs : List Glyph) : Option (Char × List Glyph) :=
  match escapeLength? (front gs) with
  | some length => do
    let digits := ((gs.drop 1).take length).map (·.char)
    guard (digits.length == length)
    let c ← charOf? (← Text.digits? 16 digits)
    return (c, gs.drop (length + 1))
  | none => (escaped? (front gs)).map (·, gs.drop 1)

/-- Read the text of a quoted scalar on, up to and with its closing quote. The first argument bounds
the number of steps. -/
def quotedText (quote : Quote) : Nat → List Glyph → Option (List Char × List Glyph)
  | 0, _ => none
  | _ + 1, [] => none
  | fuel + 1, g :: gs =>
    let goOn (text : List Char) (rest : List Glyph) : Option (List Char × List Glyph) :=
      (quotedText quote fuel rest).map fun (more, rest) => (text ++ more, rest)
    let goOnAfterGap (text : List Char) (rest : List Glyph) : Option (List Char × List Glyph) :=
      if atDocumentLimit rest then none else goOn text rest
    if g.isEnd then none
    else if g.isBlank || g.isBreak then do
      let (gap, rest) ← Gap.read? 0 false (g :: gs)
      goOnAfterGap gap.text rest
    else if g.char == quote.char then
      if quote = .single && front gs == '\'' then goOn ['\''] (gs.drop 1) else some ([], gs)
    else if quote = .double && g.char == '\\' then
      if (glyphAt gs 0).isBreak then do
        let (gap, rest) ← Gap.read? 0 true (gs.drop 1)
        goOnAfterGap gap.breaks rest
      else do
        let (c, rest) ← escape? gs
        goOn [c] rest
    else goOn [g.char] gs

/-- Read a quoted scalar whose opening quote is already read. Every step takes at least one glyph, so a
bound greater than their number is never met. -/
def quotedScalar? (bound : Nat) (quote : Quote) (gs : List Glyph) :
    Option (List Char × List Glyph) :=
  quotedText quote bound gs

end LayerPage.Yaml
