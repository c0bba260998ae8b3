/-
The commands of the program.
-/
import LayerPage.FilePath

namespace LayerPage

/-- The shells that can complete a command line. -/
inductive Shell
  | bash
  | elvish
  | fish
  | powershell
  | zsh
  deriving DecidableEq

namespace Shell

def name : Shell → String
  | .bash => "bash"
  | .elvish => "elvish"
  | .fish => "fish"
  | .powershell => "powershell"
  | .zsh => "zsh"

def all : List Shell :=
  [.bash, .elvish, .fish, .powershell, .zsh]

def ofName? (name : String) : Option Shell :=
  all.find? (·.name == name)

end Shell

/-- A command with its arguments. -/
inductive Command
  /-- Write the page of a manifest into a directory. -/
  | convert (manifest output : FilePath)
  /-- Check manifests, and count the problems as a fault where that is asked for. -/
  | validate (manifests : List FilePath) (strict : Bool)
  /-- Write what a shell needs to complete a command line. -/
  | completions (shell : Shell)
  deriving DecidableEq

/-- Where pages are written if nothing else is said. -/
def Command.defaultOutput : FilePath := ⟨"dist"⟩

end LayerPage
