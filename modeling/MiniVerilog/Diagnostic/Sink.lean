import MiniVerilog.Diagnostic.Basic

/-! # Collecting diagnostics

A sink holds diagnostics until they are taken, and counts all that were ever
put in.
-/

namespace MiniVerilog

/-- The diagnostics not taken yet, in the order they came, and the numbers of
errors and warnings since the beginning. -/
structure DiagnosticSink where
  held : List Diagnostic := []
  errors : Nat := 0
  warnings : Nat := 0
  deriving DecidableEq, Repr

namespace DiagnosticSink

/-- Puts a diagnostic in. -/
def emit (sink : DiagnosticSink) (diagnostic : Diagnostic) : DiagnosticSink where
  held := sink.held ++ [diagnostic]
  errors := if diagnostic.isError then sink.errors + 1 else sink.errors
  warnings := if diagnostic.isError then sink.warnings else sink.warnings + 1

/-- Puts diagnostics in one after another. -/
def extend (sink : DiagnosticSink) (diagnostics : List Diagnostic) : DiagnosticSink :=
  diagnostics.foldl emit sink

/-- An error was put in. -/
def hasErrors (sink : DiagnosticSink) : Bool :=
  0 < sink.errors

/-- Takes all diagnostics out, line by line. -/
def takeAll (sink : DiagnosticSink) : List Diagnostic × DiagnosticSink :=
  (Diagnostic.sorted sink.held, { sink with held := [] })

end DiagnosticSink

end MiniVerilog
