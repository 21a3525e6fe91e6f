import MiniVerilog.Diagnostic.Code

/-! # Diagnostics

A message about a line of a source text, and the order in which messages are
shown.
-/

namespace MiniVerilog

/-- A message about a line, or about a column of it. -/
structure Diagnostic where
  severity : Severity
  code : DiagnosticCode
  message : String
  line : Nat
  column : Option Nat := none
  notes : List String := []
  help : List String := []
  deriving DecidableEq, Repr

namespace Diagnostic

/-- The diagnostic is an error. -/
def isError (diagnostic : Diagnostic) : Bool :=
  diagnostic.severity == .error

/-- The order of lines, with errors before warnings on the same line. -/
def precedes (first second : Diagnostic) : Bool :=
  first.line < second.line ||
    (first.line == second.line && (first.isError || !second.isError))

/-- The diagnostics line by line, errors before warnings, and otherwise in the
order given. -/
def sorted (diagnostics : List Diagnostic) : List Diagnostic :=
  diagnostics.mergeSort precedes

end Diagnostic

end MiniVerilog
