/-
The readers that come with the program: both notations of a manifest, and rasters in the simple
formats that need no decompression.
-/
import LayerPage.Manifest.FromJson
import LayerPage.Manifest.FromYaml
import LayerPage.Raster.File
import LayerPage.Readers.Basic

namespace LayerPage

/-- The layer definitions of a manifest in a notation. -/
def ManifestFormat.definitions? : ManifestFormat → String → Option (List LayerDefinition)
  | .yaml, text => Yaml.layerDefinitions? text
  | .json, text => JsonValue.layerDefinitions? text

def Readers.builtin : Readers where
  definitions? := ManifestFormat.definitions?
  raster? := Raster.ofFile?

end LayerPage
