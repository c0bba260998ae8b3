/-
Gaps between the words of a scalar. A gap inside a line is kept as it is. One line break becomes a
space, of several line breaks the first one goes, and blanks around line breaks go with them. The two
Unicode separators are always kept.
-/
import LayerPage.Yaml.Glyph

namespace LayerPage.Yaml

/-- The blanks before the first line break of a gap, and its line breaks. -/
structure Gap where
  blanks : List Char := []
  breaks : List Char := []

namespace Gap

/-- Whether it reaches into another line. -/
def isBroken (gap : Gap) : Bool :=
  !gap.breaks.isEmpty

/-- What a gap puts between two words. -/
def text (gap : Gap) : List Char :=
  match gap.breaks with
  | [] => gap.blanks
  | ['\n'] => [' ']
  | '\n' :: breaks => breaks
  | breaks => breaks

/-- Read a gap; `broken` says that a line break came before. After a line break, no tab may stand left
of the given column. -/
def read? (column : Int) (broken : Bool) : List Glyph → Option (Gap × List Glyph)
  | [] => some ({}, [])
  | g :: gs =>
    if g.isBlank then
      if broken then
        if g.char == '\t' && (g.column : Int) < column then none else read? column true gs
      else
        (read? column false gs).map fun (gap, rest) =>
          ({ gap with blanks := g.char :: gap.blanks }, rest)
    else if g.isBreak then
      (read? column true gs).map fun (gap, rest) =>
        ({ gap with breaks := g.char :: gap.breaks }, rest)
    else some ({}, g :: gs)

end Gap

end LayerPage.Yaml
