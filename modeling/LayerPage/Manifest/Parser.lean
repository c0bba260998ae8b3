/-
From the text of a manifest to its layers.
-/
import LayerPage.Manifest.Layer
import LayerPage.Readers.Builtin

namespace LayerPage

/-- The notation of a manifest file: JSON where the extension says so, else YAML. -/
def ManifestFormat.ofPath (path : FilePath) : ManifestFormat :=
  if path.extension? = some "json" then .json else .yaml

/-- The layers of a manifest in a directory, where rasters are found by their path. -/
def Readers.layers (readers : Readers) (raster? : FilePath → Option Raster)
    (directory : FilePath) (format : ManifestFormat) (text : String) :
    Except Fault (List ManifestLayer) := do
  ManifestLayer.ofDefinitions raster? directory (← readers.definitions format text)

/-- The layers of a manifest, by the readers that come with the program. -/
def ManifestLayer.parse : (FilePath → Option Raster) → FilePath → ManifestFormat → String →
    Except Fault (List ManifestLayer) :=
  Readers.builtin.layers

end LayerPage
