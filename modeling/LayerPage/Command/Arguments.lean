/-
Reading a command line. Every command takes values by their position, and may take one option with a
value and one flag. Options and values may stand in any order, and after `--` everything is a value.
A value is checked only once the next argument shows that it is complete: so an unknown argument is
found before a bad value in front of it.
-/
import LayerPage.Command.Basic

namespace LayerPage

/-- Why a command line asks for no command. -/
inductive Usage
  | help
  | version
  | noCommand
  | unknownCommand
  | unknownArgument
  | missingArgument
  | invalidValue
  | unexpectedValue
  | repeatedArgument
  deriving DecidableEq

namespace Arguments

/-- What a command takes. -/
structure Shape where
  /-- Whether it takes any number of values by position, or only one. -/
  many : Bool := false
  /-- Whether a text is good as a value. -/
  accepts : String → Bool
  /-- The letter and the name of its option. -/
  option? : Option (Char × String) := none
  flag? : Option String := none

/-- What is still to be checked. -/
inductive Pending
  | nothing
  /-- The option, whose value may be still to come. -/
  | option (value? : Option String)
  | values (texts : List String)

/-- What a command line gives to a command. -/
structure Given where
  values : List String := []
  option? : Option String := none
  flag : Bool := false

/-- A command line of which a part has been read. -/
structure Reader where
  given : Given := {}
  pending : Pending := .nothing
  /-- Whether a value by position has been seen. -/
  seen : Bool := false
  /-- Whether everything is a value from here on. -/
  onlyValues : Bool := false

namespace Reader

/-- Set the option. It may be given once. -/
def setOption (reader : Reader) (value : String) : Except Usage Reader :=
  if reader.given.option?.isSome then .error .repeatedArgument
  else if value.isEmpty then .error .invalidValue
  else .ok { reader with given := { reader.given with option? := some value } }

/-- Check what is still to be checked. -/
def settle (shape : Shape) (reader : Reader) : Except Usage Reader :=
  let settled := { reader with pending := .nothing }
  match reader.pending with
  | .nothing => .ok settled
  | .option none => .error .invalidValue
  | .option (some value) => settled.setOption value
  | .values texts =>
    if texts.all shape.accepts then
      .ok { settled with given := { reader.given with values := reader.given.values ++ texts } }
    else .error .invalidValue

def addValue (shape : Shape) (reader : Reader) (text : String) : Except Usage Reader :=
  match shape.many, reader.pending with
  | true, .values texts => .ok { reader with pending := .values (texts ++ [text]) }
  | many, _ =>
    if reader.seen && !many then .error .unknownArgument
    else (reader.settle shape).map fun reader =>
      { reader with pending := .values [text], seen := true }

/-- Read the option, with its value if that belongs to the same argument. -/
def addOption (shape : Shape) (reader : Reader) (value? : Option String) : Except Usage Reader := do
  let reader ← reader.settle shape
  match value? with
  | some value => reader.setOption value
  | none => return { reader with pending := .option none }

/-- Read the flag. It may be given once. -/
def addFlag (shape : Shape) (reader : Reader) : Except Usage Reader := do
  let reader ← reader.settle shape
  if reader.given.flag then .error .repeatedArgument
  else return { reader with given := { reader.given with flag := true } }

def addHelp (shape : Shape) (reader : Reader) : Except Usage Reader := do
  let _ ← reader.settle shape
  .error .help

/-- Read an argument with a name, which may have a value behind `=`. -/
def addLong (shape : Shape) (reader : Reader) (name : String) (value? : Option String) :
    Except Usage Reader :=
  if shape.option?.any (·.2 == name) then reader.addOption shape value?
  else if shape.flag? == some name then
    if value?.isSome then .error .unexpectedValue else reader.addFlag shape
  else if name == "help" then
    if value?.isSome then .error .unexpectedValue else reader.addHelp shape
  else .error .unknownArgument

/-- The value behind a letter, if there is one; a `=` may stand between them. -/
def attached? : List Char → Option String
  | [] => none
  | '=' :: cs => some (.ofList cs)
  | cs => some (.ofList cs)

/-- Read an argument with a letter, and what stands behind that. -/
def addShort (shape : Shape) (reader : Reader) (letter : Char) (rest : List Char) :
    Except Usage Reader :=
  if shape.option?.any (·.1 == letter) then reader.addOption shape (attached? rest)
  else if letter == 'h' then reader.addHelp shape
  else .error .unknownArgument

/-- Split a name from a value behind the first `=`. -/
def splitValue (cs : List Char) : String × Option String :=
  match cs.dropWhile (· != '=') with
  | [] => (.ofList cs, none)
  | _ :: value => (.ofList (cs.takeWhile (· != '=')), some (.ofList value))

def add (shape : Shape) (reader : Reader) (text : String) : Except Usage Reader :=
  if reader.onlyValues then reader.addValue shape text
  else
    match text.toList, reader.pending with
    | ['-', '-'], _ => .ok { reader with onlyValues := true }
    | '-' :: '-' :: cs, _ =>
      let (name, value?) := splitValue cs
      reader.addLong shape name value?
    | '-' :: letter :: rest, _ => reader.addShort shape letter rest
    | _, .option none => .ok { reader with pending := .option (some text) }
    | _, _ => reader.addValue shape text

def addAll (shape : Shape) (reader : Reader) : List String → Except Usage Reader
  | [] => .ok reader
  | text :: texts => do (← reader.add shape text).addAll shape texts

end Reader

/-- What the arguments behind a command give to it. At least one value must be given. -/
def read (shape : Shape) (texts : List String) : Except Usage Given := do
  let reader ← (← Reader.addAll shape {} texts).settle shape
  if reader.given.values.isEmpty then .error .missingArgument else return reader.given

/-- Whether a text is good as a path. -/
def isPath (text : String) : Bool :=
  !text.isEmpty

end Arguments

namespace Command

open Arguments

def convertOf (texts : List String) : Except Usage Command := do
  let given ← read { accepts := isPath, option? := some ('o', "output") } texts
  match given.values with
  | [] => .error .missingArgument
  | manifest :: _ => return .convert ⟨manifest⟩ ((given.option?.map .mk).getD defaultOutput)

def validateOf (texts : List String) : Except Usage Command := do
  let given ← read { many := true, accepts := isPath, flag? := some "strict" } texts
  return .validate (given.values.map .mk) given.flag

def completionsOf (texts : List String) : Except Usage Command := do
  let given ← read { accepts := fun name => (Shell.ofName? name).isSome } texts
  match given.values.head?.bind Shell.ofName? with
  | none => .error .missingArgument
  | some shell => return .completions shell

def names : List String :=
  ["convert", "validate", "completions", "help"]

/-- What a call for help asks for: all of it, or a command. -/
def helpOf : List String → Usage
  | [] => .help
  | [name] => if names.contains name then .help else .unknownCommand
  | _ => .unknownCommand

/-- The fault of a first argument that is no command. -/
def refusalOf (text : String) : Usage :=
  match text.toList with
  | '-' :: '-' :: cs =>
    match Reader.splitValue cs with
    | ("help", none) => .help
    | ("version", none) => .version
    | ("help", some _) | ("version", some _) => .unexpectedValue
    | _ => .unknownArgument
  | '-' :: 'h' :: _ => .help
  | '-' :: 'V' :: _ => .version
  | '-' :: _ :: _ => .unknownArgument
  | _ => .unknownCommand

def ofArguments : List String → Except Usage Command
  | [] => .error .noCommand
  | "convert" :: texts => convertOf texts
  | "validate" :: texts => validateOf texts
  | "completions" :: texts => completionsOf texts
  | "help" :: texts => .error (helpOf texts)
  | ["--"] => .error .noCommand
  | "--" :: text :: _ =>
    .error (if names.contains text then .unknownArgument else .unknownCommand)
  | text :: _ => .error (refusalOf text)

end Command

end LayerPage
