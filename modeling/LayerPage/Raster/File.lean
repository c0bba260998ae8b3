/-
Raster files. The extension of its name tells the format of a file, whatever it holds.
-/
import LayerPage.FilePath
import LayerPage.Raster.Netpbm

namespace LayerPage.Raster

def netpbmExtensions : List String :=
  ["pbm", "pgm", "ppm", "pnm", "pam"]

/-- Whether a path names a Netpbm image; case does not matter. -/
def isNetpbm (path : FilePath) : Bool :=
  match path.extension? with
  | some extension => netpbmExtensions.contains (extension.map Char.toLower)
  | none => false

/-- Read the content of the file with the given path. -/
def ofFile? (path : FilePath) (content : List UInt8) : Option Raster :=
  if isNetpbm path then Netpbm.decode? content else none

end LayerPage.Raster
