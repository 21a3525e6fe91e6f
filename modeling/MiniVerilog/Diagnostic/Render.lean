import MiniVerilog.Diagnostic.Basic
import MiniVerilog.Json.Basic
import MiniVerilog.Text.Line

/-! # Showing diagnostics

For a reader, with the line of the source and a mark under the column, or as one
JSON object a line.
-/

namespace MiniVerilog

/-- A source text with the name it is shown under. -/
structure SourceFile where
  name : String
  content : String
  deriving DecidableEq, Repr

/-- The line with a number, counted from 1. -/
def SourceFile.line? (source : SourceFile) (number : Nat) : Option String :=
  if number = 0 then none else (Text.linesOf source.content)[number - 1]?

namespace Diagnostic

/-- Spaces. -/
def spaces (count : Nat) : String :=
  String.ofList (List.replicate count ' ')

/-- A text between the terminal codes for a severity. -/
def paint (color : Bool) (severity : Severity) (text : String) : String :=
  if color then
    (match severity with
      | .error => "\x1b[1;31m"
      | .warning => "\x1b[1;33m") ++ text ++ "\x1b[0m"
  else text

/-- The source line of a diagnostic with a mark under its column. -/
def excerpt (number : Nat) (column : Option Nat) (text : String) : String :=
  let margin := spaces (toString number).length
  margin ++ " |\n" ++ toString number ++ " | " ++ text ++ "\n" ++ margin ++ " |" ++
    (match column with
      | some column => " " ++ spaces (column - 1) ++ "^"
      | none => "") ++ "\n"

/-- The diagnostic for a reader. -/
def text (color : Bool) (source : SourceFile) (diagnostic : Diagnostic) : String :=
  let header := diagnostic.severity.spelling ++ "[" ++ diagnostic.code.spelling ++ "]"
  let place := match diagnostic.column with
    | some column => ":" ++ toString column
    | none => ""
  paint color diagnostic.severity header ++ ": " ++ diagnostic.message ++ "\n" ++
    "  --> " ++ source.name ++ ":" ++ toString diagnostic.line ++ place ++ "\n" ++
    ((source.line? diagnostic.line).map (excerpt diagnostic.line diagnostic.column)).getD "" ++
    String.join (diagnostic.notes.map fun note => "   = note: " ++ note ++ "\n") ++
    String.join (diagnostic.help.map fun help => "   = help: " ++ help ++ "\n")

/-- The diagnostic as a JSON object with its members in alphabetical order. What
is absent is left out. -/
def json (source : SourceFile) (diagnostic : Diagnostic) : Json :=
  .object
    ([("code", .string diagnostic.code.spelling)] ++
      (match diagnostic.column with
        | some column => [("column", .nat column)]
        | none => []) ++
      [("file", .string source.name)] ++
      (if diagnostic.help.isEmpty then [] else [("help", .strings diagnostic.help)]) ++
      [("line", .nat diagnostic.line), ("message", .string diagnostic.message)] ++
      (if diagnostic.notes.isEmpty then [] else [("notes", .strings diagnostic.notes)]) ++
      [("severity", .string diagnostic.severity.spelling)])

/-- Diagnostics for a reader, one after another. -/
def allText (color : Bool) (source : SourceFile) (diagnostics : List Diagnostic) : String :=
  String.join (diagnostics.map (text color source))

/-- Diagnostics as JSON, one a line. -/
def allJson (source : SourceFile) (diagnostics : List Diagnostic) : String :=
  String.join (diagnostics.map fun diagnostic => (json source diagnostic).compact ++ "\n")

end Diagnostic

end MiniVerilog
