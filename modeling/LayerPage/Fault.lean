/-
What can go wrong. A fault names its cause; its kind, code, message and help are functions of the
cause. Some faults end a conversion, others only turn into diagnostics: that is the caller's choice.
-/
import LayerPage.FilePath
import LayerPage.LayerName.Basic
import LayerPage.Text.Count

namespace LayerPage

/-- The two notations of a layer manifest. -/
inductive ManifestFormat
  | yaml
  | json
  deriving DecidableEq

def ManifestFormat.name : ManifestFormat → String
  | .yaml => "YAML"
  | .json => "JSON"

/-- What was being done with a file when it failed. -/
inductive FileFailure
  /-- The manifest is missing, is not a file, or is not text. -/
  | unreadableManifest
  /-- The raster is missing, of an unknown format, or damaged. -/
  | undecodableRaster
  /-- The output directory cannot be made. -/
  | uncreatableDirectory
  /-- The page cannot be written. -/
  | unwritablePage
  deriving DecidableEq

def FileFailure.message : FileFailure → String
  | .unreadableManifest => "Failed to read manifest"
  | .undecodableRaster => "Failed to decode raster"
  | .uncreatableDirectory => "Failed to create output directory"
  | .unwritablePage => "Failed to write document"

/-- A cause of failure. -/
inductive Fault
  /-- A colour is not written in hexadecimal. -/
  | colour (text : String)
  /-- A layer name cannot be read from the given byte offset on. -/
  | layerName (source : String) (offset : Nat) (problem : LayerName.Problem)
  /-- A configuration entry is not of the form `key="value"`. -/
  | configurationEntry (entry : String)
  /-- A manifest does not follow its notation, or not the shape of a manifest. -/
  | manifest (format : ManifestFormat)
  /-- A layer definition has a negative width or height. -/
  | negativeSize (layer : String) (width height : Int)
  /-- A layer definition has two sources of pixels. -/
  | fillAndImage (layer : String)
  /-- A layer lies deeper than the limit. -/
  | tooDeep (layer : String) (limit : Nat)
  /-- A layer has fewer children than it says. -/
  | missingChild (layer : String) (count index : Nat)
  /-- A document has no layer to become the page body. -/
  | noLayers
  /-- A strict check met problems. -/
  | problemsFound (count : Nat)
  /-- A metadata handler refused an entry. -/
  | metadata (message : String)
  /-- A heuristic failed. -/
  | heuristic (name message : String)
  /-- Work on a file failed. -/
  | file (path : FilePath) (failure : FileFailure)
  deriving DecidableEq

namespace Fault

/-- The classes of faults. -/
inductive Kind
  | parse
  | layerTree
  | metadata
  | heuristic
  | file
  deriving DecidableEq

def kind : Fault → Kind
  | colour .. | layerName .. | configurationEntry .. | manifest .. | negativeSize ..
  | fillAndImage .. => .parse
  | tooDeep .. | missingChild .. | noLayers | problemsFound .. => .layerTree
  | metadata .. => .metadata
  | heuristic .. => .heuristic
  | file .. => .file

def Kind.code : Kind → String
  | .parse => "strata::parse"
  | .layerTree => "strata::structure"
  | .metadata => "strata::metadata"
  | .heuristic => "strata::heuristic"
  | .file => "strata::io"

def code (fault : Fault) : String :=
  fault.kind.code

/-- What happened, without the class of the fault. -/
def detail : Fault → String
  | colour text => "Invalid hex colour: " ++ text
  | layerName source offset problem =>
    "couldn't parse layer name '" ++ source ++ "' at offset " ++ toString offset ++ ": "
      ++ problem.message
  | configurationEntry entry => "malformed configuration entry '" ++ entry ++ "'"
  | manifest _ => "Invalid manifest"
  | negativeSize layer width height =>
    "Layer '" ++ layer ++ "' has negative size " ++ toString width ++ "x" ++ toString height
  | fillAndImage layer => "Layer '" ++ layer ++ "' has both fill and image"
  | tooDeep layer limit =>
    "layer '" ++ layer ++ "' is nested more than " ++ toString limit ++ " levels deep"
  | missingChild layer count index =>
    "layer '" ++ layer ++ "' reports " ++ toString count ++ " children but child "
      ++ toString index ++ " is missing"
  | noLayers => "document has no layers"
  | problemsFound count => Text.counted count "problem" "problems" ++ " found"
  | metadata message => message
  | heuristic _ message => message
  | file _ failure => failure.message

def message (fault : Fault) : String :=
  match fault with
  | heuristic name _ => "Heuristic '" ++ name ++ "' failed: " ++ fault.detail
  | file path _ => "IO error with " ++ path.text ++ ": " ++ fault.detail
  | _ =>
    match fault.kind with
    | .parse => "Parse error: " ++ fault.detail
    | .layerTree => "Malformed layer tree: " ++ fault.detail
    | .metadata => "Metadata error: " ++ fault.detail
    | .heuristic | .file => fault.detail

/-- Advice on how to mend the input, where there is some. -/
def help? : Fault → Option String
  | colour _ => some "Use #RGB, #RRGGBB, or #RRGGBBAA format"
  | layerName .. => some "Layer names look like <tag>identifier[namespace:key=\"value\"]"
  | configurationEntry _ => some "Configuration layers are named key=\"value\""
  | manifest format => some ("Check the manifest's " ++ format.name ++ " syntax")
  | negativeSize .. => some "Layer width and height must be zero or more"
  | fillAndImage _ => some "Use either `fill` or `image`, not both"
  | tooDeep .. => some "The layer tree may contain a cycle"
  | noLayers => some "The first top-level layer becomes the page body"
  | problemsFound _ => some "Run without --strict to treat these as warnings"
  | missingChild .. | metadata _ | heuristic .. | file .. => none

end Fault

end LayerPage
