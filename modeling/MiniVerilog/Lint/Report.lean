import MiniVerilog.Diagnostic.Sink
import MiniVerilog.Lint.Finding
import MiniVerilog.Module.Declaration

/-! # Lint reports

What the linter recovers from a source text, with its diagnostics.
-/

namespace MiniVerilog.Lint

/-- The event control of an always block. -/
structure AlwaysHeader where
  sensitivityList : List String
  line : Nat
  deriving DecidableEq, Repr

/-- The recovered declarations of all modules in a text, under the name of the
first one, and the diagnostics in the order they were found. -/
structure Report where
  name : String := ""
  ports : List Port := []
  signals : List Signal := []
  alwaysHeaders : List AlwaysHeader := []
  assigns : List Assign := []
  parameters : List Parameter := []
  errors : List Diagnostic := []
  warnings : List Diagnostic := []
  deriving DecidableEq, Repr

namespace Report

/-- Adds a finding about a line to the errors or to the warnings. -/
def find (report : Report) (line : Nat) (finding : Finding) : Report :=
  let diagnostic := finding.diagnostic line
  if diagnostic.isError then { report with errors := report.errors ++ [diagnostic] }
  else { report with warnings := report.warnings ++ [diagnostic] }

/-- A text without errors is valid; warnings do not count. -/
def isValid (report : Report) : Bool :=
  report.errors.isEmpty

/-- All diagnostics line by line, errors before warnings. -/
def diagnostics (report : Report) : List Diagnostic :=
  Diagnostic.sorted (report.errors ++ report.warnings)

/-- Puts all diagnostics into a sink. -/
def emitInto (report : Report) (sink : DiagnosticSink) : DiagnosticSink :=
  sink.extend report.diagnostics

/-- A diagnostic has the given code. -/
def hasCode (report : Report) (code : DiagnosticCode) : Bool :=
  (report.errors ++ report.warnings).any fun diagnostic => diagnostic.code == code

/-- The value of the first parameter with a name. -/
def constant? (report : Report) (name : String) : Option Value :=
  (report.parameters.find? fun parameter => parameter.name = name).map (·.value)

end Report

end MiniVerilog.Lint
