/-
Replacing parts of a text: every occurrence of one character, or every occurrence of a pattern,
taken from the left and without overlap.
-/
namespace LayerPage.Text

/-- Put a text in place of every occurrence of a character. -/
def replaceChar (mark : Char) (new : List Char) (cs : List Char) : List Char :=
  cs.flatMap fun c => if c = mark then new else [c]

/-- Put a text in place of every occurrence of a pattern; `skip` characters still belong to the
occurrence just replaced. An empty pattern occurs nowhere. -/
def replaceFrom (pattern new : List Char) (skip : Nat) : List Char → List Char
  | [] => []
  | c :: cs =>
    match skip with
    | skip + 1 => replaceFrom pattern new skip cs
    | 0 =>
      if !pattern.isEmpty && pattern.isPrefixOf (c :: cs) then
        new ++ replaceFrom pattern new (pattern.length - 1) cs
      else c :: replaceFrom pattern new 0 cs

/-- Put a text in place of every occurrence of a pattern. -/
def replaceAll (pattern new cs : List Char) : List Char :=
  replaceFrom pattern new 0 cs

end LayerPage.Text
