/-
Counted nouns for messages: `1 layer`, `2 layers`.
-/
namespace LayerPage.Text

/-- A count and its noun, which has a form of its own for one. -/
def counted (n : Nat) (one many : String) : String :=
  toString n ++ " " ++ if n = 1 then one else many

end LayerPage.Text
