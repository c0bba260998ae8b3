/-
The program: reads the command line, runs the command on the files of this machine, and says what went
wrong. Messages go to the standard error; the standard output carries completions, help and the
version only.
-/
import LayerPage.Command.Arguments
import LayerPage.Command.Run

namespace LayerPage.Main

/-- Whether an action ends without an error. -/
def succeeds (action : IO Unit) : IO Bool := do
  try
    action
    return true
  catch _ => return false

instance : Host IO where
  readers := return .builtin
  workingDirectory := do return ⟨(← IO.currentDir).toString⟩
  read? path := do
    try return some (← IO.FS.readBinFile path.text).toList
    catch _ => return none
  isPresent path := succeeds do discard <| IO.FS.realPath path.text
  makeDirectories path := succeeds do IO.FS.createDirAll path.text
  write path text := succeeds do IO.FS.writeFile path.text text
  report text := do (← IO.getStderr).putStr text

def version : String := "0.1.0"

def usage : String :=
  "Turns layered design documents into styled pages.\n\n"
    ++ "Usage:\n"
    ++ "  convert MANIFEST [--output DIRECTORY]\n"
    ++ "  validate [--strict] MANIFEST...\n"
    ++ "  completions SHELL\n"
    ++ "  help [COMMAND]\n"

/-- What keeps a command line from being one, in words; nothing for calls for help and the like. -/
def problem? : Usage → Option String
  | .help | .version | .noCommand => none
  | .unknownCommand => some "unknown command"
  | .unknownArgument => some "unexpected argument"
  | .missingArgument => some "missing argument"
  | .invalidValue => some "invalid value"
  | .unexpectedValue => some "unexpected value"
  | .repeatedArgument => some "repeated argument"

/-- What a shell needs to complete the name of a command. -/
def completions (shell : Shell) : String :=
  let names := " ".intercalate Command.names
  match shell with
  | .bash => "complete -W \"" ++ names ++ "\" layerpage\n"
  | .elvish =>
    "set edit:completion:arg-completer[layerpage] = \x7b|@words| put " ++ names ++ " \x7d\n"
  | .fish => "complete -c layerpage -f -a \"" ++ names ++ "\"\n"
  | .powershell =>
    "Register-ArgumentCompleter -Native -CommandName layerpage -ScriptBlock \x7b -split \""
      ++ names ++ "\" \x7d\n"
  | .zsh => "compctl -k \"(" ++ names ++ ")\" layerpage\n"

/-- Answer a command line that asks for no command; the exit code says whether it is a mistake. -/
def refuse (reason : Usage) : IO UInt32 := do
  match reason, problem? reason with
  | .help, _ =>
    IO.print usage
    return 0
  | .version, _ =>
    IO.println version
    return 0
  | _, some problem =>
    IO.eprint ("error: " ++ problem ++ "\n\n" ++ usage)
    return 2
  | _, none =>
    IO.eprint usage
    return 2

/-- Answer the end of a command. -/
def finish : Except Fault Outcome → IO UInt32
  | .ok (.completions shell) => do
    IO.print (completions shell)
    return 0
  | .ok _ => return 0
  | .error fault => do
    IO.eprintln ("error[" ++ fault.code ++ "]: " ++ fault.message)
    if let some help := fault.help? then IO.eprintln ("  help: " ++ help)
    return 1

/-- Read the command line and run the command. -/
def run (arguments : List String) : IO UInt32 := do
  match Command.ofArguments arguments with
  | .error reason => refuse reason
  | .ok command =>
    let printer : Printer := { colour := ← (← IO.getStderr).isTty }
    finish (← (command.run printer : ExceptT Fault IO Outcome).run)

end LayerPage.Main

def main (arguments : List String) : IO UInt32 :=
  LayerPage.Main.run arguments
