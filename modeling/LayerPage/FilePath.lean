/-
Paths of files: texts whose segments stand between slashes. A path is kept as it is written. Empty
segments and segments `.` say nothing, but for a `.` at the front of a relative path; the operations
here skip them and leave the rest of the text alone.
-/
namespace LayerPage

/-- A path as it is written. -/
structure FilePath where
  text : String
  deriving DecidableEq, Inhabited

namespace FilePath

/-- A part of a path between two slashes. -/
abbrev Segment := List Char

/-- Split a text at every slash. The result is never empty. -/
def split : List Char → List Segment
  | [] => [[]]
  | c :: cs =>
    if c = '/' then [] :: split cs
    else
      match split cs with
      | [] => [[c]]
      | segment :: segments => (c :: segment) :: segments

def join : List Segment → List Char :=
  List.intercalate ['/']

/-- Whether a path starts from the root. -/
def isAbsolute (path : FilePath) : Bool :=
  path.text.toList.head? == some '/'

/-- The segments of a path, the slash of an absolute path aside. -/
def segments (path : FilePath) : List Segment :=
  match path.text.toList with
  | '/' :: cs => split cs
  | cs => split cs

/-- Whether a segment says nothing. -/
def isSilent (segment : Segment) : Bool :=
  segment == [] || segment == ['.']

/-- Drop the silent segments at the end. -/
def dropSilentEnd (segments : List Segment) : List Segment :=
  (segments.reverse.dropWhile isSilent).reverse

/-- Drop the segments at the end that say nothing; the first one of a relative path may be `.`. -/
def trim : (absolute : Bool) → List Segment → List Segment
  | false, ['.'] :: segments => ['.'] :: dropSilentEnd segments
  | _, segments => dropSilentEnd segments

/-- The segments without those that say nothing at the end. -/
def trimmed (path : FilePath) : List Segment :=
  trim path.isAbsolute path.segments

/-- The path with the given segments, absolute or not. -/
def ofSegments (absolute : Bool) (segments : List Segment) : FilePath :=
  ⟨String.ofList ((if absolute then ['/'] else []) ++ join segments)⟩

/-- A path without its last segment. The root and the empty path have no parent. -/
def parent? (path : FilePath) : Option FilePath :=
  match path.trimmed with
  | [] => none
  | segments =>
    some (ofSegments path.isAbsolute (trim path.isAbsolute segments.dropLast))

/-- The parent, its parent, and so on, at most so many. -/
def ancestorsWithin : Nat → FilePath → List FilePath
  | 0, _ => []
  | count + 1, path =>
    match path.parent? with
    | none => []
    | some parent => parent :: ancestorsWithin count parent

/-- The parent, its parent, and so on. Each of them has fewer segments than the one before, and the
one with a single empty segment has no parent. -/
def ancestors (path : FilePath) : List FilePath :=
  ancestorsWithin path.segments.length path

/-- The last segment, if it is a name. -/
def fileName? (path : FilePath) : Option Segment :=
  path.trimmed.getLast?.filter fun segment => segment != ['.'] && segment != ['.', '.']

/-- What follows the last dot of a file name; nothing if all before that dot is empty. -/
def extensionOf? (name : Segment) : Option Segment :=
  let after := name.reverse.takeWhile (· != '.')
  if after.length + 1 < name.length then some after.reverse else none

def extension? (path : FilePath) : Option String :=
  (path.fileName?.bind extensionOf?).map String.ofList

/-- A path seen from a directory; an absolute path stays what it is. -/
def within (directory path : FilePath) : FilePath :=
  let cs := directory.text.toList
  if path.isAbsolute then path
  else if cs.getLast? == some '/' || cs.isEmpty then ⟨directory.text ++ path.text⟩
  else ⟨directory.text ++ "/" ++ path.text⟩

/-- What is left of some segments once others are taken from their front, silent ones aside. -/
def stripSegments : (front segments : List Segment) → Option (List Segment)
  | [], segments => some segments
  | _ :: _, [] => none
  | name :: front, segment :: segments =>
    if isSilent segment then stripSegments (name :: front) segments
    else if segment == name then stripSegments front segments
    else none

/-- The way to a path from an absolute directory, if the path starts with that directory. -/
def relativeTo? (path directory : FilePath) : Option FilePath :=
  if path.isAbsolute then
    (stripSegments (directory.segments.filter (!isSilent ·)) path.segments).map fun segments =>
      ofSegments false (dropSilentEnd (segments.dropWhile isSilent))
  else none

/-- A path to show to somebody who works in a directory: from there on if it lies below it. -/
def display (path workingDirectory : FilePath) : String :=
  match path.relativeTo? workingDirectory with
  | some way => if way.text.isEmpty then "." else way.text
  | none => path.text

end FilePath

end LayerPage
