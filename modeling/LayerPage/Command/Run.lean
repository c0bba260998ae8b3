/-
Running a command. What it does is reported on the way; a fault ends it. Nothing is written before a
page is complete.
-/
import LayerPage.Command.Basic
import LayerPage.Convert
import LayerPage.Manifest.Load
import LayerPage.Terminal

namespace LayerPage

def Page.fileName : FilePath := ⟨"index.html"⟩

/-- What a command ends with. -/
inductive Outcome
  /-- The page at a path has been written. -/
  | page (path : FilePath)
  | problems (count : Nat)
  /-- What a shell needs is to be written. -/
  | completions (shell : Shell)
  deriving DecidableEq

namespace Command

variable {m : Type → Type} [Monad m] [Host m]

/-- Report a line about work that goes well. -/
def status (printer : Printer) (verb message : String) : m Unit :=
  Host.report (printer.status verb message)

def shown (path : FilePath) : m String := do
  return path.display (← Host.workingDirectory)

/-- Write a page into a directory, which is made if nothing is there. -/
def writePage {α : Type} [Layer α] (page : Page α) (output : FilePath) :
    ExceptT Fault m FilePath := do
  unless ← Host.isPresent output do
    unless ← Host.makeDirectories output do
      throw (.file output .uncreatableDirectory)
  let path := output.within Page.fileName
  unless ← Host.write path page.render do
    throw (.file path .unwritablePage)
  return path

/-- Convert layers, and report the diagnostics. -/
def convertLayers (printer : Printer) (layers : List ManifestLayer) :
    ExceptT Fault m (Conversion ManifestLayer) := do
  let converter : Converter ManifestLayer := {}
  let conversion ← converter.convert (LayerDocument.ofList layers)
  Host.report (printer.diagnosticsText conversion.diagnostics)
  return conversion

/-- Convert a manifest into a page in a directory. -/
def convertManifest (printer : Printer) (manifest output : FilePath) :
    ExceptT Fault m FilePath := do
  status printer "Loading" (← shown manifest)
  let layers ← Manifest.load manifest
  status printer "Converting" (← shown manifest)
  let conversion ← convertLayers printer layers
  let path ← writePage conversion.page output
  let count := Text.counted conversion.page.tree.size "element" "elements"
  status printer "Finished" (count ++ " -> " ++ printer.cyan (← shown path))
  return path

/-- Convert a manifest without writing its page, and count the problems. -/
def checkManifest (printer : Printer) (manifest : FilePath) : ExceptT Fault m Nat := do
  status printer "Checking" (← shown manifest)
  let layers ← Manifest.load manifest
  let conversion ← convertLayers printer layers
  return conversion.diagnostics.length

/-- Check manifests, and count the problems. -/
def validateManifests (printer : Printer) (manifests : List FilePath) (strict : Bool) :
    ExceptT Fault m Nat := do
  let problems := (← manifests.mapM (checkManifest printer)).foldl (· + ·) 0
  if problems = 0 then
    status printer "Finished"
      (Text.counted manifests.length "manifest" "manifests" ++ " valid")
  else if strict then throw (.problemsFound problems)
  else Host.report (printer.warning "Finished" (Text.counted problems "problem" "problems"))
  return problems

def run (printer : Printer) : Command → ExceptT Fault m Outcome
  | .convert manifest output => do return .page (← convertManifest printer manifest output)
  | .validate manifests strict => do return .problems (← validateManifests printer manifests strict)
  | .completions shell => return .completions shell

end Command

end LayerPage
