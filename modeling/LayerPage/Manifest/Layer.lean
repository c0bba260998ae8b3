/-
The layers of a manifest: plain trees whose pixels come from one colour, from a raster, or from
nowhere. A layer is made from its definition, and the first definition that has a fault ends the
work: a definition is looked at before those of its children, and these in their order.
-/
import LayerPage.Manifest.Definition
import LayerPage.Raster.Basic

namespace LayerPage

/-- Where the pixels of a layer come from. -/
inductive Pixels
  | empty
  | solid (fill : Colour)
  | raster (image : Raster)
  deriving DecidableEq

/-- A layer of a manifest. -/
structure ManifestLayer where
  name : String
  bounds : Bounds
  kind : LayerKind
  pixels : Pixels
  children : List ManifestLayer

namespace ManifestLayer

def solid (name : String) (bounds : Bounds) (fill : Colour) : ManifestLayer :=
  { name, bounds, kind := .normal, pixels := .solid fill, children := [] }

def raster (name : String) (bounds : Bounds) (image : Raster) : ManifestLayer :=
  { name, bounds, kind := .normal, pixels := .raster image, children := [] }

def folder (name : String) (bounds : Bounds) (children : List ManifestLayer) : ManifestLayer :=
  { name, bounds, kind := .folder, pixels := .empty, children }

/-- The pixel at a distance from the top left corner. A colour fills the bounds of its layer; a raster
has a size of its own. -/
def sample? (layer : ManifestLayer) (x y : Nat) : Option Colour :=
  match layer.pixels with
  | .empty => none
  | .solid fill =>
    if (x : Int) < layer.bounds.width.toInt && (y : Int) < layer.bounds.height.toInt then some fill
    else none
  | .raster image => image.pixel? x y

instance : Layer ManifestLayer where
  name layer := layer.name
  bounds layer := layer.bounds
  kind layer := layer.kind
  childCount layer := layer.children.length
  child? layer index := layer.children[index]?
  sample? := sample?

-- ============================================================ from definitions

/-- The pixels that a definition asks for. The path of a raster starts from the directory of the
manifest. -/
def pixelsOf (raster? : FilePath → Option Raster) (directory : FilePath) (d : LayerDefinition) :
    Except Fault Pixels :=
  match d.fill?, d.image? with
  | some _, some _ => .error (.fillAndImage d.name)
  | some fill, none => (Colour.ofHex fill).map .solid
  | none, some image =>
    let path := directory.within ⟨image⟩
    match raster? path with
    | some raster => .ok (.raster raster)
    | none => .error (.file path .undecodableRaster)
  | none, none => .ok .empty

/-- The kind that a definition asks for. One that says nothing is a folder if it has children and no
pixels. -/
def kindOf (d : LayerDefinition) (pixels : Pixels) : LayerKind :=
  d.kind?.getD (if pixels = .empty && !d.children.isEmpty then .folder else .normal)

/-- The layer of a definition, without its children. -/
def shallow (raster? : FilePath → Option Raster) (directory : FilePath) (d : LayerDefinition) :
    Except Fault ManifestLayer :=
  if d.width < 0 || d.height < 0 then
    .error (.negativeSize d.name d.width.toInt d.height.toInt)
  else
    (pixelsOf raster? directory d).map fun pixels =>
      { name := d.name
        bounds := { x := d.x, y := d.y, width := d.width, height := d.height }
        kind := kindOf d pixels
        pixels
        children := [] }

mutual

def ofDefinition (raster? : FilePath → Option Raster) (directory : FilePath) :
    LayerDefinition → Except Fault ManifestLayer
  | ⟨name, x, y, width, height, fill?, image?, kind?, children⟩ => do
    let layer ← shallow raster? directory
      ⟨name, x, y, width, height, fill?, image?, kind?, children⟩
    return { layer with children := ← ofDefinitions raster? directory children }

def ofDefinitions (raster? : FilePath → Option Raster) (directory : FilePath) :
    List LayerDefinition → Except Fault (List ManifestLayer)
  | [] => return []
  | d :: ds => do
    let layer ← ofDefinition raster? directory d
    return layer :: (← ofDefinitions raster? directory ds)

end

end ManifestLayer

end LayerPage
