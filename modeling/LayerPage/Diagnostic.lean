/-
Diagnostics: problems that only degrade what they are found on. Everything that can meet one
returns its diagnostics beside its result, in the order they were met.
-/
namespace LayerPage

/-- One warning. -/
structure Diagnostic where
  /-- Machine-readable code, such as `strata::layer-name`. -/
  code : String
  message : String
  /-- Name of the layer it was found on, if any. -/
  layer? : Option String := none
  help? : Option String := none
  deriving DecidableEq

namespace Diagnostic

def summary (d : Diagnostic) : String :=
  let line := "warning[" ++ d.code ++ "]: " ++ d.message
  match d.layer? with
  | some layer => line ++ " (layer '" ++ layer ++ "')"
  | none => line

/-- Whether one of the diagnostics carries the code. -/
def containsCode (diagnostics : List Diagnostic) (code : String) : Bool :=
  diagnostics.any (·.code == code)

end Diagnostic

end LayerPage
