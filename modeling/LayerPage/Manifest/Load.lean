/-
Loading a manifest from its file. The rasters that its definitions name are read first, in the order
of the definitions; making the layers is then a matter of looking them up.
-/
import LayerPage.Host
import LayerPage.Manifest.Parser

namespace LayerPage

namespace LayerDefinition

mutual

/-- The rasters that a definition and those below it name. -/
def images : LayerDefinition → List String
  | ⟨_, _, _, _, _, _, image?, _, children⟩ => image?.toList ++ imagesOfAll children

def imagesOfAll : List LayerDefinition → List String
  | [] => []
  | d :: ds => images d ++ imagesOfAll ds

end

end LayerDefinition

namespace Manifest

variable {m : Type → Type} [Monad m] [Host m]

/-- The directory in which the paths of a manifest start. -/
def directoryOf (path : FilePath) : FilePath :=
  path.parent?.getD ⟨"."⟩

/-- The text of a file, if it is one. -/
def text? (content : List UInt8) : Option String :=
  String.fromUTF8? ⟨content.toArray⟩

def readRaster (readers : Readers) (path : FilePath) : m (FilePath × Option Raster) := do
  return (path, (← Host.read? path).bind (readers.raster? path))

def load (path : FilePath) : ExceptT Fault m (List ManifestLayer) := do
  match (← Host.read? path).bind text? with
  | none => throw (.file path .unreadableManifest)
  | some text =>
    let readers ← Host.readers
    let definitions ← readers.definitions (ManifestFormat.ofPath path) text
    let directory := directoryOf path
    let paths := (LayerDefinition.imagesOfAll definitions).map fun image => directory.within ⟨image⟩
    let rasters ← paths.mapM (readRaster readers)
    ManifestLayer.ofDefinitions (fun path => (rasters.lookup path).join) directory definitions

end Manifest

end LayerPage
