/-
The characters of a YAML text, each with its place. Line breaks in all their spellings become one
glyph: a line feed, or one of the two Unicode separators, which are breaks of their own. The last
glyph of a text is the end mark, a zero, which no text may hold.
-/
namespace LayerPage.Yaml

/-- A character and its place. Lines and columns count from zero; the index counts the characters
before it. -/
structure Glyph where
  char : Char
  line : Nat
  column : Nat
  index : Nat
  deriving Inhabited

/-- Whether a character may stand in a YAML text. -/
def isPrintable (c : Char) : Bool :=
  let n := c.toNat
  n == 0x09 || n == 0x0A || n == 0x0D || n == 0x85 || (0x20 ≤ n && n ≤ 0x7E)
    || (0xA0 ≤ n && n ≤ 0xD7FF) || (0xE000 ≤ n && n ≤ 0xFFFD) || 0x10000 ≤ n

/-- The glyph a character makes if it breaks a line. -/
def break? (c : Char) : Option Char :=
  if c == '\n' || c == '\r' || c == '\u0085' then some '\n'
  else if c == '\u2028' || c == '\u2029' then some c
  else none

namespace Glyph

/-- The glyphs of a text that starts at a place. -/
def ofCharsAt (line column index : Nat) : List Char → List Glyph
  | [] => [⟨'\x00', line, column, index⟩]
  | '\r' :: '\n' :: cs => ⟨'\n', line, column, index⟩ :: ofCharsAt (line + 1) 0 (index + 2) cs
  | c :: cs =>
    match break? c with
    | some c => ⟨c, line, column, index⟩ :: ofCharsAt (line + 1) 0 (index + 1) cs
    | none => ⟨c, line, column, index⟩ :: ofCharsAt line (column + 1) (index + 1) cs

/-- The glyphs of a text, if all its characters may stand in one. -/
def ofText? (text : String) : Option (List Glyph) :=
  let cs := text.toList
  if cs.all isPrintable then some (ofCharsAt 0 0 0 cs) else none

/-- Whether it is a space or a tab. -/
def isBlank (g : Glyph) : Bool :=
  g.char == ' ' || g.char == '\t'

def isBreak (g : Glyph) : Bool :=
  g.char == '\n' || g.char == '\u2028' || g.char == '\u2029'

def isEnd (g : Glyph) : Bool :=
  g.char == '\x00'

def endsLine (g : Glyph) : Bool :=
  g.isBreak || g.isEnd

/-- Whether it ends a word: a blank, a line break or the end. -/
def endsWord (g : Glyph) : Bool :=
  g.isBlank || g.endsLine

end Glyph

-- ============================================================ looking forward

/-- The glyph at a distance; the end mark behind the end. -/
def glyphAt (gs : List Glyph) (distance : Nat) : Glyph :=
  gs[distance]?.getD default

def front (gs : List Glyph) : Char :=
  (glyphAt gs 0).char

/-- Whether the character in front is one of some. -/
def frontIn (chars : List Char) (gs : List Glyph) : Bool :=
  chars.contains (front gs)

/-- Whether a line starts here with a mark of three characters that stands alone. -/
def atDocumentMark (mark : Char) (gs : List Glyph) : Bool :=
  (glyphAt gs 0).column == 0 && (gs.take 3).map (·.char) == [mark, mark, mark]
    && (glyphAt gs 3).endsWord

/-- Whether a line starts here with the mark that starts or ends a document. -/
def atDocumentLimit (gs : List Glyph) : Bool :=
  atDocumentMark '-' gs || atDocumentMark '.' gs

/-- Whether a character may be part of a name: an anchor, a tag handle or a directive. -/
def isNameChar (c : Char) : Bool :=
  c.isAlphanum || c == '_' || c == '-'

def skipBlanks (gs : List Glyph) : List Glyph :=
  gs.dropWhile Glyph.isBlank

/-- Drop a comment in front, up to the end of its line. -/
def skipComment (gs : List Glyph) : List Glyph :=
  if front gs == '#' then gs.dropWhile (!·.endsLine) else gs

/-- Finish a line that holds nothing more than blanks and a comment. -/
def finishLine? (gs : List Glyph) : Option (List Glyph) :=
  match skipComment (skipBlanks gs) with
  | [] => some []
  | g :: gs => if g.isBreak then some gs else if g.isEnd then some (g :: gs) else none

end LayerPage.Yaml
