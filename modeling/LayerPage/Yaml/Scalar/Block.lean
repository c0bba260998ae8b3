/-
Block scalars: the indented lines below a `|`, which keeps line breaks, or a `>`, which folds lines
of a paragraph into one. A header behind that mark may tell the indentation, and what becomes of the
line breaks at the end.
-/
import LayerPage.Yaml.Glyph

namespace LayerPage.Yaml

/-- What becomes of the line breaks at the end: all go, all but one go, or all stay. -/
inductive Chomping
  | strip
  | clip
  | keep
  deriving DecidableEq

/-- What the header of a block scalar says. -/
structure BlockHeader where
  chomping : Chomping := .clip
  /-- The indentation relative to that of the block around. -/
  increment? : Option Nat := none

namespace BlockHeader

/-- Read the mark of a chomping, if there is one. -/
def readChomping? : List Glyph → Option (Chomping × List Glyph)
  | g :: gs =>
    if g.char == '+' then some (.keep, gs)
    else if g.char == '-' then some (.strip, gs)
    else none
  | [] => none

/-- Read the digit of an indentation, if there is one. Zero is none, and is left to be an error. -/
def readIncrement? : List Glyph → Option (Nat × List Glyph)
  | g :: gs =>
    if '1' ≤ g.char && g.char ≤ '9' then some (g.char.toNat - '0'.toNat, gs) else none
  | [] => none

/-- Read a header; its two parts may stand in either order. -/
def read (gs : List Glyph) : BlockHeader × List Glyph :=
  match readChomping? gs with
  | some (chomping, gs) =>
    match readIncrement? gs with
    | some (increment, gs) => ({ chomping, increment? := some increment }, gs)
    | none => ({ chomping }, gs)
  | none =>
    match readIncrement? gs with
    | some (increment, gs) =>
      match readChomping? gs with
      | some (chomping, gs) => ({ chomping, increment? := some increment }, gs)
      | none => ({ increment? := some increment }, gs)
    | none => ({}, gs)

end BlockHeader

/-- Empty lines: their line breaks, the greatest column reached on the way, and what follows. -/
structure EmptyLines where
  breaks : List Char := []
  deepest : Nat := 0
  rest : List Glyph

/-- Read the empty lines in front of a line of text, and the indentation of that line. Spaces are
skipped up to the column of the indentation, or all of them where it is not known yet; no tab may
stand in their place. -/
def emptyLines? (indent? : Option Nat) : List Glyph → Option EmptyLines
  | [] => some { rest := [] }
  | g :: gs =>
    let inIndent := indent?.all (g.column < ·)
    let reach (lines : EmptyLines) : EmptyLines :=
      { lines with deepest := max g.column lines.deepest }
    if inIndent && g.char == ' ' then (emptyLines? indent? gs).map reach
    else if inIndent && g.char == '\t' then none
    else if g.isBreak then
      (emptyLines? indent? gs).map fun lines =>
        reach { lines with breaks := g.char :: lines.breaks }
    else some (reach { rest := g :: gs })

/-- The text between two lines of a block scalar. `before` is the line break behind the first of
them and `after` holds those of the empty lines that follow. A folded scalar makes a space of a single
line break between two lines that do not start with a blank. -/
def between (folded : Bool) (before after : List Char) (blanksAround : Bool) : List Char :=
  if folded && before.head? == some '\n' && !blanksAround then
    if after.isEmpty then [' '] else after
  else before ++ after

/-- Read the lines of a block scalar with the given indentation. `before` and `after` are the line
breaks since the last line, and `blank` says that it started with a blank. The first argument bounds
the number of lines. -/
def blockLines (folded : Bool) (chomping : Chomping) (indent : Nat) :
    Nat → (before after : List Char) → (blank : Bool) → List Glyph →
      Option (List Char × List Glyph)
  | 0, _, _, _, _ => none
  | fuel + 1, before, after, blank, gs =>
    let g := glyphAt gs 0
    if g.column == indent && !g.isEnd then do
      let line := gs.takeWhile (!·.endsLine)
      let rest := gs.dropWhile (!·.endsLine)
      let end? := (glyphAt rest 0).isBreak
      let lines ← emptyLines? (some indent) (if end? then rest.drop 1 else rest)
      let (text, rest) ← blockLines folded chomping indent fuel
        (if end? then [front rest] else []) lines.breaks g.isBlank lines.rest
      return (between folded before after (blank || g.isBlank) ++ line.map (·.char) ++ text, rest)
    else
      let kept :=
        match chomping with
        | .strip => []
        | .clip => before
        | .keep => before ++ after
      some (kept, gs)

/-- Read a block scalar whose mark is already read, inside a block with the given indentation. Where
the header does not tell the indentation, the lines in front of the text do. Every line but the last
one takes a glyph, so a bound greater than the number of glyphs is never met. -/
def blockScalar? (bound : Nat) (folded : Bool) (outer : Int) (gs : List Glyph) :
    Option (List Char × List Glyph) := do
  let (header, gs) := BlockHeader.read gs
  let gs ← finishLine? gs
  let told? := header.increment?.map fun increment => (max outer 0).toNat + increment
  let lines ← emptyLines? told? gs
  let indent := told?.getD (max lines.deepest (max (outer + 1).toNat 1))
  blockLines folded header.chomping indent bound [] lines.breaks false lines.rest

end LayerPage.Yaml
