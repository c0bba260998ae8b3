/-
Plain scalars: words without quotes. In a block, a plain scalar goes on over lines that are indented
deeper than the block; in brackets it goes on until one of the characters that structure them.
-/
import LayerPage.Yaml.Scalar.Gap

namespace LayerPage.Yaml

/-- The characters that structure flow collections. -/
def flowMarks : List Char :=
  [',', '[', ']', '\x7b', '\x7d']

/-- The characters that start something else than a plain scalar. -/
def indicators : List Char :=
  ['-', '?', ':', ',', '[', ']', '\x7b', '\x7d', '#', '&', '*', '!', '|', '>', '\'', '"', '%', '@',
   Char.ofNat 0x60]

def startsPlain (inFlow : Bool) (gs : List Glyph) : Bool :=
  let g := glyphAt gs 0
  let next := glyphAt gs 1
  !(g.endsWord || indicators.contains g.char) || (g.char == '-' && !next.endsWord)
    || (!inFlow && (g.char == '?' || g.char == ':') && !next.endsWord)

/-- Whether a colon stands here that is followed by a mark of flow collections, which is an error in
brackets. -/
def atTightColon (gs : List Glyph) : Bool :=
  front gs == ':' && ('?' :: flowMarks).contains (glyphAt gs 1).char

/-- Whether a word of a plain scalar ends here. -/
def endsPlainWord (inFlow : Bool) (gs : List Glyph) : Bool :=
  (front gs == ':' && (glyphAt gs 1).endsWord) || (inFlow && frontIn flowMarks gs)

/-- A plain scalar that has been read. -/
structure PlainScalar where
  text : List Char
  /-- Whether a line break came after its last word. -/
  broken : Bool
  rest : List Glyph

/-- Put text in front of a scalar. -/
def PlainScalar.prepend (cs : List Char) (scalar : PlainScalar) : PlainScalar :=
  { scalar with text := cs ++ scalar.text }

/-- Read a plain scalar on after a gap. A line that starts left of the given column ends it. The first
argument bounds the number of steps. -/
def plainAfter (inFlow : Bool) (column : Int) : Nat → Gap → List Glyph → Option PlainScalar
  | 0, _, _ => none
  | _ + 1, gap, [] => some { text := [], broken := gap.isBroken, rest := [] }
  | fuel + 1, gap, g :: gs =>
    if g.isBlank || g.isBreak then do
      let (gap, rest) ← Gap.read? column false (g :: gs)
      if !inFlow && ((glyphAt rest 0).column : Int) < column || atDocumentLimit rest
          || front rest == '#' then
        return { text := [], broken := gap.isBroken, rest }
      else plainAfter inFlow column fuel gap rest
    else if g.isEnd then some { text := [], broken := gap.isBroken, rest := g :: gs }
    else if inFlow && atTightColon (g :: gs) then none
    else if endsPlainWord inFlow (g :: gs) then
      some { text := [], broken := gap.isBroken, rest := g :: gs }
    else (plainAfter inFlow column fuel {} gs).map (·.prepend (gap.text ++ [g.char]))

/-- Read a plain scalar. Every step takes at least one glyph, so a bound greater than their number is
never met. -/
def plainScalar? (bound : Nat) (inFlow : Bool) (column : Int) (gs : List Glyph) :
    Option PlainScalar :=
  plainAfter inFlow column bound {} gs

end LayerPage.Yaml
