/-
A file system without links: places, each a directory or a file. A path is followed segment by
segment, and every segment but the last one has to lead into a directory that is there.
-/
import LayerPage.FilePath
import LayerPage.Text.Blank

namespace LayerPage

/-- What is at a place. -/
inductive FileNode
  | directory
  | file (content : List UInt8)
  deriving DecidableEq

/-- A place: the names on the way from the root, the deepest one first. -/
abbrev Location := List FilePath.Segment

/-- Directories and files by their place. -/
structure FileSystem where
  nodes : List (Location × FileNode) := []

namespace FileSystem

/-- What is at a place; the root is always a directory. -/
def node? (files : FileSystem) (place : Location) : Option FileNode :=
  match place with
  | [] => some .directory
  | place => files.nodes.lookup place

/-- Put something at a place, in place of what is there. -/
def put (files : FileSystem) (place : Location) (node : FileNode) : FileSystem :=
  ⟨(place, node) :: files.nodes.filter (·.1 != place)⟩

-- ============================================================ following paths

/-- Why a path cannot be followed, or nothing be made at its end. -/
inductive Obstacle
  /-- Something on the way is missing. -/
  | missing
  /-- A file is in the way, something is there already, or a name cannot be a name. -/
  | blocked
  deriving DecidableEq

/-- Whether a file can have this name. -/
def isName (segment : FilePath.Segment) : Bool :=
  Text.utf8Size segment ≤ 255 && !segment.contains '\x00'

/-- Follow one segment from a directory. Nothing need be where it leads. -/
def step (files : FileSystem) (place : Location) (segment : FilePath.Segment) :
    Except Obstacle Location :=
  match files.node? place with
  | none => .error .missing
  | some (.file _) => .error .blocked
  | some .directory =>
    if FilePath.isSilent segment then .ok place
    else if segment = ['.', '.'] then .ok place.tail
    else if isName segment then .ok (segment :: place)
    else .error .blocked

def walk (files : FileSystem) : Location → List FilePath.Segment → Except Obstacle Location
  | place, [] => .ok place
  | place, segment :: segments =>
    match files.step place segment with
    | .error obstacle => .error obstacle
    | .ok place => files.walk place segments

def start (directory : Location) (path : FilePath) : Location :=
  if path.isAbsolute then [] else directory

/-- Follow a path from a directory. The empty path leads nowhere. -/
def locate (files : FileSystem) (directory : Location) (path : FilePath) :
    Except Obstacle Location :=
  if path.text.isEmpty then .error .missing
  else files.walk (start directory path) path.segments

def find? (files : FileSystem) (directory : Location) (path : FilePath) : Option FileNode :=
  match files.locate directory path with
  | .ok place => files.node? place
  | .error _ => none

def read? (files : FileSystem) (directory : Location) (path : FilePath) : Option (List UInt8) :=
  match files.find? directory path with
  | some (.file content) => some content
  | _ => none

/-- Whether a path leads to a directory. -/
def isDirectory (files : FileSystem) (directory : Location) (path : FilePath) : Bool :=
  files.find? directory path = some .directory

-- ==================================================================== changes

/-- Make a file with the given content, or replace the content of one; nothing if its directory is
missing or a directory is in its place. -/
def write? (files : FileSystem) (directory : Location) (path : FilePath) (content : List UInt8) :
    Option FileSystem :=
  match files.locate directory path with
  | .error _ => none
  | .ok place =>
    match files.node? place with
    | some .directory => none
    | _ => some (files.put place (.file content))

/-- Make one directory. Slashes at the end of its path do not matter. -/
def makeDirectory (files : FileSystem) (directory : Location) (path : FilePath) :
    Except Obstacle FileSystem :=
  let segments := (path.segments.reverse.dropWhile (· == [])).reverse
  match files.walk (start directory path) segments with
  | .error obstacle => .error obstacle
  | .ok place =>
    match files.node? place with
    | some _ => .error .blocked
    | none => .ok (files.put place .directory)

/-- Make the first directory of a list. If something on the way to it is missing, make the others
before, of which each one holds the one in front of it. Says whether the directory is there at the
end; the empty path stands for one that is. -/
def makeChain (files : FileSystem) (directory : Location) : List FilePath → FileSystem × Bool
  | [] => (files, false)
  | path :: ancestors =>
    if path.text.isEmpty then (files, true)
    else
      match files.makeDirectory directory path with
      | .ok files => (files, true)
      | .error .blocked => (files, files.isDirectory directory path)
      | .error .missing =>
        match files.makeChain directory ancestors with
        | (files, false) => (files, false)
        | (files, true) =>
          match files.makeDirectory directory path with
          | .ok files => (files, true)
          | .error _ => (files, files.isDirectory directory path)

/-- Make a directory and those above it that are missing. Says whether it is there at the end. -/
def makeDirectories (files : FileSystem) (directory : Location) (path : FilePath) :
    FileSystem × Bool :=
  files.makeChain directory (path :: path.ancestors)

end FileSystem

end LayerPage
