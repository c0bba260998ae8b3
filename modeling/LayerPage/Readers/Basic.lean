/-
What files are read with. How the text of a manifest follows its notation, and how the content of an
image becomes a raster, is laid down outside this library, and there are many programs that know it.
Whatever is loaded here is loaded with the readers at hand.
-/
import LayerPage.Fault
import LayerPage.Manifest.Definition
import LayerPage.Raster.Basic

namespace LayerPage

/-- Readers of the notations of a manifest and of the formats of images. -/
structure Readers where
  /-- The layer definitions in a text, if it follows the notation. -/
  definitions? : ManifestFormat → String → Option (List LayerDefinition)
  /-- The raster in a file with a path and a content, if it can be decoded. -/
  raster? : FilePath → List UInt8 → Option Raster

/-- The layer definitions of a manifest, or the fault that there are none. -/
def Readers.definitions (readers : Readers) (format : ManifestFormat) (text : String) :
    Except Fault (List LayerDefinition) :=
  match readers.definitions? format text with
  | some definitions => .ok definitions
  | none => .error (.manifest format)

end LayerPage
