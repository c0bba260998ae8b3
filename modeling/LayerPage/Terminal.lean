/-
Terminal output: status lines with a right-aligned verb, and diagnostics, coloured or plain.
-/
import LayerPage.Diagnostic
import LayerPage.Text.Count

namespace LayerPage

/-- Writes for a terminal that may show colours. -/
structure Printer where
  colour : Bool

namespace Printer

/-- The control codes of a terminal in use here. -/
inductive Style
  | bold
  | dim
  | green
  | yellow
  | cyan

/-- The control sequence that turns a style on. -/
def Style.code : Style → String
  | .bold => "\x1b[1m"
  | .dim => "\x1b[2m"
  | .green => "\x1b[32m"
  | .yellow => "\x1b[33m"
  | .cyan => "\x1b[36m"

/-- The control sequence that turns all styles off. -/
def reset : String := "\x1b[0m"

/-- Width of the verb column in characters. -/
def verbWidth : Nat := 12

/-- Show a text in some styles; as it is on a terminal without colours. -/
def paint (printer : Printer) (styles : List Style) (text : String) : String :=
  if printer.colour then String.join (styles.map Style.code) ++ text ++ reset else text

def dim (printer : Printer) (text : String) : String :=
  printer.paint [.dim] text

def cyan (printer : Printer) (text : String) : String :=
  printer.paint [.cyan] text

/-- Put blanks before a text up to a width. -/
def padLeft (width : Nat) (text : String) : String :=
  String.ofList (List.replicate (width - text.length) ' ') ++ text

/-- A line with a verb in its column and a message. -/
def line (printer : Printer) (colour : Style) (verb message : String) : String :=
  printer.paint [.bold, colour] (padLeft verbWidth verb) ++ " " ++ message ++ "\n"

/-- A line about work that goes well. -/
def status (printer : Printer) (verb message : String) : String :=
  printer.line .green verb message

def warning (printer : Printer) (verb message : String) : String :=
  printer.line .yellow verb message

/-- A diagnostic, its layer and its advice on lines of their own. -/
def diagnosticText (printer : Printer) (d : Diagnostic) : String :=
  printer.paint [.bold, .yellow] "warning" ++ printer.dim ("[" ++ d.code ++ "]") ++ ": " ++ d.message
    ++ (match d.layer? with
      | some layer => "\n  " ++ printer.dim "-->" ++ " layer '" ++ layer ++ "'"
      | none => "")
    ++ (match d.help? with
      | some help => "\n  " ++ printer.dim "help:" ++ " " ++ help
      | none => "")

/-- The diagnostics of a conversion and a line that counts them; nothing if there are none. -/
def diagnosticsText (printer : Printer) (diagnostics : List Diagnostic) : String :=
  String.join (diagnostics.map fun d => printer.diagnosticText d ++ "\n")
    ++ if diagnostics.isEmpty then ""
      else
        printer.warning "Finished"
          ("with " ++ Text.counted diagnostics.length "warning" "warnings")

end Printer

end LayerPage
