/-
From a YAML text to its tokens. Two things are seen only late: that a block ends, once a line starts
left of it, and that a token was a key, once a colon follows it. So the lexer keeps the indentations of
the open blocks, and at every level of brackets the place of the last token that may still become a
key. A key has to end on the line it starts on, within 1024 characters.
-/
import LayerPage.Yaml.Scalar.Block
import LayerPage.Yaml.Scalar.Plain
import LayerPage.Yaml.Scalar.Quoted
import LayerPage.Yaml.Tag
import LayerPage.Yaml.Token

namespace LayerPage.Yaml

/-- A token that may still become a key. -/
structure KeyCandidate where
  /-- Number of the tokens before it. -/
  position : Nat
  start : Glyph
  /-- Whether nothing but a key can stand there. -/
  required : Bool

/-- A text of which a part has been read. -/
structure Lexer where
  /-- More than the number of glyphs of the text. -/
  bound : Nat
  rest : List Glyph
  tokens : Array Token := #[]
  /-- The token that may become a key in the innermost brackets. -/
  candidate? : Option KeyCandidate := none
  /-- The same for the brackets around, and outside of all. -/
  outerCandidates : List (Option KeyCandidate) := []
  /-- The column of the innermost block; -1 outside of all blocks. -/
  indent : Int := -1
  /-- The columns of the blocks around. -/
  outerIndents : List Int := []
  /-- Whether a key may start here. -/
  keyAllowed : Bool := true

namespace Lexer

def here (lexer : Lexer) : Glyph :=
  glyphAt lexer.rest 0

def inFlow (lexer : Lexer) : Bool :=
  !lexer.outerCandidates.isEmpty

/-- Add a token, and go on reading somewhere. -/
def add (token : Token) (rest : List Glyph) (lexer : Lexer) : Lexer :=
  { lexer with tokens := lexer.tokens.push token, rest }

-- ====================================================================== blocks

/-- Close the blocks right of a column: their number, and what is left. -/
def closeIndents (column : Int) : (indent : Int) → (outer : List Int) → Nat × Int × List Int
  | indent, [] => (0, indent, [])
  | indent, next :: outer =>
    if column < indent then
      let (count, indent, outer) := closeIndents column next outer
      (count + 1, indent, outer)
    else (0, indent, next :: outer)

/-- Close the blocks right of a column. In brackets there are none to close. -/
def unroll (column : Int) (lexer : Lexer) : Lexer :=
  if lexer.inFlow then lexer
  else
    let (count, indent, outerIndents) := closeIndents column lexer.indent lexer.outerIndents
    let tokens := (List.replicate count Token.blockEnd).foldl Array.push lexer.tokens
    { lexer with tokens, indent, outerIndents }

/-- Open a block at a column, unless one is open there, with a token at a position among those read. -/
def roll (column : Nat) (position : Nat) (token : Token) (lexer : Lexer) : Lexer :=
  if lexer.inFlow || (column : Int) ≤ lexer.indent then lexer
  else
    { lexer with
      tokens := lexer.tokens.insertIdxIfInBounds position token
      indent := column
      outerIndents := lexer.indent :: lexer.outerIndents }

/-- Open a block where the next token starts. -/
def rollHere (token : Token) (lexer : Lexer) : Lexer :=
  lexer.roll lexer.here.column lexer.tokens.size token

-- ======================================================================== keys

/-- Give up a candidate; it must not be one that is required. -/
def giveUp? : Option KeyCandidate → Option (Option KeyCandidate)
  | some candidate => if candidate.required then none else some none
  | none => some none

/-- Give up the candidate of the innermost brackets. -/
def dropKey? (lexer : Lexer) : Option Lexer := do
  return { lexer with candidate? := ← giveUp? lexer.candidate? }

/-- Take the next token as a candidate, if a key may start here. -/
def saveKey? (lexer : Lexer) : Option Lexer :=
  if lexer.keyAllowed then do
    let lexer ← lexer.dropKey?
    return { lexer with
      candidate? := some {
        position := lexer.tokens.size
        start := lexer.here
        required := !lexer.inFlow && lexer.indent == lexer.here.column } }
  else some lexer

/-- Whether a key that starts at one glyph can no longer end at another. -/
def isTooFar (start now : Glyph) : Bool :=
  start.line < now.line || start.index + 1024 < now.index

/-- Give up the candidates that are too far behind. -/
def expireKeys? (lexer : Lexer) : Option Lexer := do
  let expire? : Option KeyCandidate → Option (Option KeyCandidate)
    | some candidate =>
      if isTooFar candidate.start lexer.here then giveUp? (some candidate) else some (some candidate)
    | none => some none
  return { lexer with
    candidate? := ← expire? lexer.candidate?
    outerCandidates := ← lexer.outerCandidates.mapM expire? }

/-- Say whether a key may start at the next token. -/
def allowKey (allowed : Bool) (lexer : Lexer) : Lexer :=
  { lexer with keyAllowed := allowed }

-- ====================================================================== tokens

/-- Skip blanks, comments and empty lines. Where a key may start in a block, a tab is no blank. The
mark of the byte order may stand in front of the text. The first argument bounds the number of
steps. -/
def skipWithin : Nat → Lexer → Lexer
  | 0, lexer => lexer
  | fuel + 1, lexer =>
    let tabs := lexer.inFlow || !lexer.keyAllowed
    let rest :=
      if lexer.here.index == 0 && lexer.here.char == '\uFEFF' then lexer.rest.drop 1
      else lexer.rest
    let rest := skipComment (rest.dropWhile fun g => g.char == ' ' || (tabs && g.char == '\t'))
    if (glyphAt rest 0).isBreak then
      skipWithin fuel
        { lexer with rest := rest.drop 1, keyAllowed := lexer.keyAllowed || !lexer.inFlow }
    else { lexer with rest }

/-- Skip what stands before the next token. -/
def skipToToken (lexer : Lexer) : Lexer :=
  lexer.skipWithin lexer.bound

/-- The end of the text: all blocks end. -/
def readEnd? (lexer : Lexer) : Option Lexer := do
  let lexer ← (lexer.unroll (-1)).dropKey?
  return (lexer.allowKey false).add .streamEnd []

/-- A directive, which ends all blocks. -/
def readDirective? (lexer : Lexer) : Option Lexer := do
  let lexer ← (lexer.unroll (-1)).dropKey?
  let (token, rest) ← directive? (lexer.rest.drop 1)
  return (lexer.allowKey false).add token rest

/-- The mark of the start or end of a document, which ends all blocks. -/
def readDocumentLimit? (token : Token) (lexer : Lexer) : Option Lexer := do
  let lexer ← (lexer.unroll (-1)).dropKey?
  return (lexer.allowKey false).add token (lexer.rest.drop 3)

/-- An opening bracket. What is in brackets may be a key as a whole. -/
def readOpening? (token : Token) (lexer : Lexer) : Option Lexer := do
  let lexer ← lexer.saveKey?
  let inner :=
    { lexer with
      candidate? := none
      outerCandidates := lexer.candidate? :: lexer.outerCandidates }
  return (inner.allowKey true).add token (lexer.rest.drop 1)

def readClosing? (token : Token) (lexer : Lexer) : Option Lexer := do
  let lexer ← lexer.dropKey?
  let outer :=
    match lexer.outerCandidates with
    | [] => lexer
    | candidate? :: outerCandidates => { lexer with candidate?, outerCandidates }
  return (outer.allowKey false).add token (lexer.rest.drop 1)

def readFlowEntry? (lexer : Lexer) : Option Lexer := do
  let lexer ← lexer.dropKey?
  return (lexer.allowKey true).add .flowEntry (lexer.rest.drop 1)

/-- Open a block for a mark that stands where a key may start; in brackets there is none to open. -/
def openBlock? (token : Token) (lexer : Lexer) : Option Lexer :=
  if lexer.inFlow then some lexer
  else if lexer.keyAllowed then some (lexer.rollHere token)
  else none

/-- The mark of an item of a block. -/
def readBlockEntry? (lexer : Lexer) : Option Lexer := do
  let lexer ← (← lexer.openBlock? .blockSequenceStart).dropKey?
  return (lexer.allowKey true).add .blockEntry (lexer.rest.drop 1)

/-- The mark in front of a key. -/
def readKey? (lexer : Lexer) : Option Lexer := do
  let lexer ← (← lexer.openBlock? .blockMappingStart).dropKey?
  return (lexer.allowKey (!lexer.inFlow)).add .key (lexer.rest.drop 1)

/-- The mark behind a key. The candidate becomes the key, and opens a block where it starts. -/
def readValue? (lexer : Lexer) : Option Lexer := do
  match lexer.candidate? with
  | some candidate =>
    let lexer := { lexer with
      candidate? := none
      tokens := lexer.tokens.insertIdxIfInBounds candidate.position .key }
    let lexer := lexer.roll candidate.start.column candidate.position .blockMappingStart
    return (lexer.allowKey false).add .value (lexer.rest.drop 1)
  | none =>
    let lexer ← lexer.openBlock? .blockMappingStart
    return (lexer.allowKey (!lexer.inFlow)).add .value (lexer.rest.drop 1)

def readName? (token : List Char → Token) (lexer : Lexer) : Option Lexer := do
  let lexer ← lexer.saveKey?
  let (name, rest) ← anchorName? (lexer.rest.drop 1)
  return (lexer.allowKey false).add (token name) rest

def readTag? (lexer : Lexer) : Option Lexer := do
  let lexer ← lexer.saveKey?
  let (token, rest) ← tag? lexer.inFlow lexer.rest
  return (lexer.allowKey false).add token rest

/-- A block scalar, which is never a key. -/
def readBlockScalar? (folded : Bool) (lexer : Lexer) : Option Lexer := do
  let lexer ← lexer.dropKey?
  let (text, rest) ← blockScalar? lexer.bound folded lexer.indent (lexer.rest.drop 1)
  return (lexer.allowKey true).add (.scalar text (if folded then .other else .literal)) rest

def readQuoted? (quote : Quote) (lexer : Lexer) : Option Lexer := do
  let lexer ← lexer.saveKey?
  let (text, rest) ← quotedScalar? lexer.bound quote (lexer.rest.drop 1)
  return (lexer.allowKey false).add (.scalar text .other) rest

/-- A plain scalar. A key may start after one that ends with its line. -/
def readPlain? (lexer : Lexer) : Option Lexer := do
  let lexer ← lexer.saveKey?
  let scalar ← plainScalar? lexer.bound lexer.inFlow (lexer.indent + 1) lexer.rest
  return (lexer.allowKey scalar.broken).add (.scalar scalar.text .plain) scalar.rest

/-- Read the token that starts at the next glyph. -/
def readToken? (lexer : Lexer) : Option Lexer :=
  let next := glyphAt lexer.rest 1
  let atMark := lexer.inFlow || next.endsWord
  if lexer.here.isEnd then lexer.readEnd?
  else if lexer.here.column == 0 && lexer.here.char == '%' then lexer.readDirective?
  else if atDocumentMark '-' lexer.rest then lexer.readDocumentLimit? .documentStart
  else if atDocumentMark '.' lexer.rest then lexer.readDocumentLimit? .documentEnd
  else if startsPlain lexer.inFlow lexer.rest then lexer.readPlain?
  else
    match lexer.here.char with
    | '[' => lexer.readOpening? .flowSequenceStart
    | '\x7b' => lexer.readOpening? .flowMappingStart
    | ']' => lexer.readClosing? .flowSequenceEnd
    | '\x7d' => lexer.readClosing? .flowMappingEnd
    | ',' => lexer.readFlowEntry?
    | '-' => if next.endsWord then lexer.readBlockEntry? else none
    | '?' => if atMark then lexer.readKey? else none
    | ':' => if atMark then lexer.readValue? else none
    | '*' => lexer.readName? .alias
    | '&' => lexer.readName? .anchor
    | '!' => lexer.readTag?
    | '|' => if lexer.inFlow then none else lexer.readBlockScalar? false
    | '>' => if lexer.inFlow then none else lexer.readBlockScalar? true
    | '\'' => lexer.readQuoted? .single
    | '"' => lexer.readQuoted? .double
    | _ => none

/-- Skip to the next token, and give up what its place rules out: keys that are too far behind, and
blocks right of it. -/
def advance? (lexer : Lexer) : Option Lexer := do
  let lexer ← lexer.skipToToken.expireKeys?
  return lexer.unroll lexer.here.column

/-- Read all tokens. The first argument bounds their number. -/
def readAll? : Nat → Lexer → Option (List Token)
  | 0, _ => none
  | fuel + 1, lexer => do
    let lexer ← lexer.advance?
    let last := lexer.here.isEnd
    let lexer ← lexer.readToken?
    if last then return lexer.tokens.toList else readAll? fuel lexer

end Lexer

/-- The tokens of a text. Every token takes at least one glyph. -/
def Token.ofText? (text : String) : Option (List Token) := do
  let gs ← Glyph.ofText? text
  let bound := gs.length + 1
  Lexer.readAll? bound { bound, rest := gs }

end LayerPage.Yaml
