/-
What commands need of the world around them: files and the readers for them, a directory to work in,
and somebody to report to. Commands run in any monad that offers this. `World` offers it without a
world, for reasoning and for rehearsal.
-/
import LayerPage.FileSystem
import LayerPage.Readers.Builtin

namespace LayerPage

/-- The monads in which files can be read and written and messages reported. -/
class Host (m : Type → Type) where
  /-- What manifests and images are read with. -/
  readers : m Readers
  /-- The directory in which relative paths start. -/
  workingDirectory : m FilePath
  /-- The content of a file, if it can be read. -/
  read? : FilePath → m (Option (List UInt8))
  /-- Whether there is something at a path. -/
  isPresent : FilePath → m Bool
  /-- Make a directory and those above it that are missing. Says whether it is there at the end. -/
  makeDirectories : FilePath → m Bool
  /-- Write a file. Says whether that succeeded. -/
  write : FilePath → String → m Bool
  /-- Show a text at once. -/
  report : String → m Unit

/-- A computation that may fail has the world of one that may not. -/
instance {m : Type → Type} {ε : Type} [Monad m] [Host m] : Host (ExceptT ε m) where
  readers := ExceptT.lift Host.readers
  workingDirectory := ExceptT.lift Host.workingDirectory
  read? path := ExceptT.lift (Host.read? path)
  isPresent path := ExceptT.lift (Host.isPresent path)
  makeDirectories path := ExceptT.lift (Host.makeDirectories path)
  write path text := ExceptT.lift (Host.write path text)
  report text := ExceptT.lift (Host.report text)

/-- A file system, a directory in it to work in, readers for the files, and all that has been
reported. -/
structure World where
  files : FileSystem
  directory : Location := []
  readers : Readers := .builtin
  reported : String := ""

namespace World

def pathOf (place : Location) : FilePath :=
  .ofSegments true place.reverse

instance : Host (StateM World) where
  readers := do return (← get).readers
  workingDirectory := do return pathOf (← get).directory
  read? path := do
    let world ← get
    return world.files.read? world.directory path
  isPresent path := do
    let world ← get
    return (world.files.find? world.directory path).isSome
  makeDirectories path := do
    let world ← get
    let (files, made) := world.files.makeDirectories world.directory path
    set { world with files }
    return made
  write path text := do
    let world ← get
    match world.files.write? world.directory path text.toUTF8.toList with
    | some files =>
      set { world with files }
      return true
    | none => return false
  report text := modify fun world => { world with reported := world.reported ++ text }

end World

end LayerPage
