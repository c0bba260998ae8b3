/-
Tags, and the directives in front of a document. A tag is a handle and a suffix; a directive may say
what a handle stands for. In both, `%` and two hexadecimal digits stand for a byte.
-/
import LayerPage.Text.Integer
import LayerPage.Yaml.Glyph
import LayerPage.Yaml.Token

namespace LayerPage.Yaml

-- ====================================================================== bytes

/-- Read a byte written as `%` and two digits. -/
def escapedByte? : List Glyph → Option (Nat × List Glyph)
  | percent :: high :: low :: rest => do
    guard (percent.char == '%')
    return (← Text.digits? 16 [high.char, low.char], rest)
  | _ => none

/-- How many bytes follow the first byte of a character, and the bits that this byte holds. -/
def continuation? (first : Nat) : Option (Nat × Nat) :=
  if first < 0x80 then some (0, first)
  else if first / 0x20 == 0x06 then some (1, first % 0x20)
  else if first / 0x10 == 0x0E then some (2, first % 0x10)
  else if first / 0x08 == 0x1E then some (3, first % 0x08)
  else none

/-- Read so many further bytes of a character, after the given bits of it. -/
def escapedBits? : (count bits : Nat) → List Glyph → Option (Nat × List Glyph)
  | 0, bits, gs => some (bits, gs)
  | count + 1, bits, gs => do
    let (byte, gs) ← escapedByte? gs
    guard (byte / 0x40 == 0x02)
    escapedBits? count (0x40 * bits + byte % 0x40) gs

/-- The character with the given bits in so many further bytes. What is no character in its shortest
form becomes the replacement character, which no tag known here holds. -/
def charOfBits (count bits : Nat) : Char :=
  let least := [0, 0x80, 0x800, 0x10000][count]?.getD 0
  if least ≤ bits && bits.isValidChar then .ofNat bits else '\uFFFD'

/-- Read a character whose bytes are escaped. -/
def escapedChar? (gs : List Glyph) : Option (Char × List Glyph) := do
  let (first, gs) ← escapedByte? gs
  let (count, bits) ← continuation? first
  let (bits, gs) ← escapedBits? count bits gs
  return (charOfBits count bits, gs)

-- ======================================================================= tags

/-- Whether a character may be part of a tag; a few more may where the tag has an end mark. -/
def isTagChar (delimited : Bool) (c : Char) : Bool :=
  isNameChar c || ";/?:@&=+$.%!~*'()".contains c || (delimited && ",[]".contains c)

/-- Read characters of a tag, as many as there are. The first argument bounds their number. -/
def tagChars? (delimited : Bool) : Nat → List Glyph → Option (List Char × List Glyph)
  | 0, gs => some ([], gs)
  | _ + 1, [] => some ([], [])
  | fuel + 1, g :: gs =>
    if g.char == '%' then do
      let (c, gs) ← escapedChar? (g :: gs)
      let (cs, gs) ← tagChars? delimited fuel gs
      return (c :: cs, gs)
    else if isTagChar delimited g.char then do
      let (cs, gs) ← tagChars? delimited fuel gs
      return (g.char :: cs, gs)
    else some ([], g :: gs)

/-- Read the text of a tag after characters that have been read already. It must not be empty, and
ends at an escaped zero, whatever follows that. -/
def tagText? (delimited : Bool) (start : List Char) (gs : List Glyph) :
    Option (List Char × List Glyph) := do
  let (cs, gs) ← tagChars? delimited gs.length gs
  guard (!(start ++ cs).isEmpty)
  return ((start ++ cs).takeWhile (· != '\x00'), gs)

/-- Read a handle: `!`, a name, and again `!` if it is there. -/
def handle? : List Glyph → Option (List Char × List Glyph)
  | g :: gs => do
    guard (g.char == '!')
    let name := (gs.takeWhile (isNameChar ·.char)).map (·.char)
    let rest := gs.dropWhile (isNameChar ·.char)
    return if front rest == '!' then ('!' :: name ++ ['!'], rest.drop 1) else ('!' :: name, rest)
  | [] => none

/-- Whether a handle has both its marks. -/
def isNamedHandle (handle : List Char) : Bool :=
  1 < handle.length && handle.getLast? == some '!'

/-- Read a tag between `!<` and `>`; its mark is already read. -/
def verbatimTag? (gs : List Glyph) : Option (Token × List Glyph) := do
  let (suffix, gs) ← tagText? true [] gs
  guard (front gs == '>')
  return (.tag [] suffix, gs.drop 1)

/-- Read a tag of a handle and a suffix. What looks like a handle without its second mark belongs to
the suffix, and a `!` alone is a tag that has no handle. -/
def shorthandTag? (gs : List Glyph) : Option (Token × List Glyph) := do
  let (handle, gs) ← handle? gs
  if isNamedHandle handle then
    let (suffix, gs) ← tagText? false [] gs
    return (.tag handle suffix, gs)
  else
    let (text, gs) ← tagText? false handle gs
    let suffix := text.drop 1
    return (if suffix.isEmpty then .tag [] ['!'] else .tag ['!'] suffix, gs)

/-- Read a tag, which must end at the end of a word, or in brackets before a comma. -/
def tag? (inFlow : Bool) (gs : List Glyph) : Option (Token × List Glyph) := do
  let (token, gs) ←
    if (glyphAt gs 1).char == '<' then verbatimTag? (gs.drop 2) else shorthandTag? gs
  guard ((glyphAt gs 0).endsWord || (inFlow && front gs == ','))
  return (token, gs)

-- ==================================================================== anchors

/-- Read the name of an anchor, whose mark is already read. -/
def anchorName? (gs : List Glyph) : Option (List Char × List Glyph) := do
  let name := (gs.takeWhile (isNameChar ·.char)).map (·.char)
  let rest := gs.dropWhile (isNameChar ·.char)
  guard (!name.isEmpty)
  guard ((glyphAt rest 0).endsWord
    || frontIn ['?', ':', ',', ']', '\x7d', '%', '@', Char.ofNat 0x60] rest)
  return (name, rest)

-- ================================================================= directives

/-- Read a number of a version, at most nine digits. -/
def versionNumber? (gs : List Glyph) : Option (Nat × List Glyph) := do
  let digits := (gs.takeWhile (·.char.isDigit)).map (·.char)
  guard (digits.length ≤ 9)
  return (← Text.digits? 10 digits, gs.dropWhile (·.char.isDigit))

def version? (gs : List Glyph) : Option (Token × List Glyph) := do
  let (major, gs) ← versionNumber? (skipBlanks gs)
  guard (front gs == '.')
  let (minor, gs) ← versionNumber? (gs.drop 1)
  return (.versionDirective major minor, gs)

/-- Read the handle in a directive and what it stands for. -/
def tagMeaning? (gs : List Glyph) : Option (Token × List Glyph) := do
  let (handle, gs) ← handle? (skipBlanks gs)
  guard (isNamedHandle handle || handle == ['!'])
  guard (glyphAt gs 0).isBlank
  let (start, gs) ← tagText? true [] (skipBlanks gs)
  guard (glyphAt gs 0).endsWord
  return (.tagDirective handle start, gs)

/-- Read a directive whose mark is already read, with the rest of its line. -/
def directive? (gs : List Glyph) : Option (Token × List Glyph) := do
  let name := (gs.takeWhile (isNameChar ·.char)).map (·.char)
  let rest := gs.dropWhile (isNameChar ·.char)
  guard (glyphAt rest 0).endsWord
  let (token, rest) ←
    if name == "YAML".toList then version? rest
    else if name == "TAG".toList then tagMeaning? rest
    else none
  return (token, ← finishLine? rest)

end LayerPage.Yaml
