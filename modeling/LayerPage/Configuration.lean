/-
Settings of a conversion, read from a group of layers: each child of the group is named
`key="value"`. A name of another form is reported and skipped.
-/
import LayerPage.Diagnostic
import LayerPage.Fault
import LayerPage.Layer

namespace LayerPage

/-- Settings by key. -/
structure Configuration where
  options : SortedMap String := ∅
  deriving DecidableEq

namespace Configuration

/-- Name of the top-level layer that holds the settings. -/
def groupName : String := "configuration"

/-- Key of the remark written beside tags. -/
def commentTemplate : String := "comment-template"

/-- Key of the page title. -/
def title : String := "title"

/-- Code of the diagnostics of this module. -/
def code : String := "strata::config"

/-- Set an option, replacing any earlier value. -/
def set (config : Configuration) (key value : String) : Configuration :=
  ⟨config.options.insert key value⟩

def get? (config : Configuration) (key : String) : Option String :=
  config.options.get? key

def size (config : Configuration) : Nat :=
  config.options.size

def isEmpty (config : Configuration) : Bool :=
  config.options.isEmpty

/-- Read `key="value"`: the key ends at the first `=`, one quote is taken off the value at each end,
and blanks around both do not matter. -/
def readEntry? (entry : List Char) : Option (List Char × List Char) := do
  let (key, value) ← Text.splitAt? '=' entry
  let value ← Text.dropFirst? '"' (Text.trim value)
  let value ← Text.dropEnding? ['"'] value
  match Text.trim key with
  | [] => none
  | key => some (key, value)

/-- Read an entry, or say which one is malformed. -/
def parseEntry (entry : String) : Except Fault (String × String) :=
  match readEntry? entry.toList with
  | some (key, value) => .ok (String.ofList key, String.ofList value)
  | none => .error (.configurationEntry entry)

/-- Read every entry of a group that is there; of two entries with the same key the later one
counts. -/
def ofGroup {α : Type} [Layer α] (group : α) : Configuration × List Diagnostic :=
  (Layer.presentChildren group).foldl
    (fun (config, diagnostics) child =>
      match parseEntry (Layer.name child) with
      | .ok (key, value) => (config.set key value, diagnostics)
      | .error fault =>
        (config, diagnostics ++ [{ code, message := fault.message, layer? := Layer.name child }]))
    ({}, [])

end Configuration

end LayerPage
