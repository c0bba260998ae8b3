/-
Rasters: rectangles of pixels, row after row from the top left corner.
-/
import LayerPage.Colour

namespace LayerPage

/-- A rectangle of pixels. -/
structure Raster where
  width : Nat
  height : Nat
  pixels : Array Colour
  deriving DecidableEq

namespace Raster

/-- The raster with the given rows; the first of them tells the width. -/
def ofRows (rows : List (List Colour)) : Raster :=
  { width := (rows.head?.map List.length).getD 0, height := rows.length
    pixels := rows.flatten.toArray }

/-- The pixel at a distance from the top left corner, if that lies inside. -/
def pixel? (raster : Raster) (x y : Nat) : Option Colour :=
  if x < raster.width && y < raster.height then raster.pixels[y * raster.width + x]? else none

end Raster

end LayerPage
