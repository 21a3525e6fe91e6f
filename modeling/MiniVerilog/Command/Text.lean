import MiniVerilog.Diagnostic.Render
import MiniVerilog.Lint.Report
import MiniVerilog.Regression.Registry
import MiniVerilog.Regression.Report
import MiniVerilog.Text.Blank

/-! # Text output

What the actions print when no other form is asked for, and the lines that sum up
what was done.
-/

namespace MiniVerilog.Command

/-- Lines, each with its end. -/
def lines (texts : List String) : String :=
  String.join (texts.map (· ++ "\n"))

/-- A line that sums up what was done. -/
def remark (text : String) : String :=
  "   " ++ text ++ "\n"

/-- The class of a token in a table. -/
def kindLabel : TokenKind → String
  | .keyword _ => "keyword"
  | .identifier => "ident"
  | .number => "number"
  | .operator => "operator"
  | .string => "string"
  | .comment => "comment"

/-- A row with the place, the class and the text of a token. -/
def tokenRow (token : Token) : String :=
  Text.padded 8 (toString token.line ++ ":" ++ toString token.column) ++ " " ++
    Text.padded 10 (kindLabel token.kind) ++ " " ++ token.text

/-- A row for each token. -/
def tokenTable (tokens : List Token) : String :=
  lines (tokens.map tokenRow)

/-- How many diagnostics there are. -/
def lintRemark (file : String) (report : Lint.Report) : String :=
  remark <| "Checked " ++ file ++
    (if report.name = "" then "" else " (module `" ++ report.name ++ "`)") ++ ": " ++
    toString report.errors.length ++ " error(s), " ++
    toString report.warnings.length ++ " warning(s)"

/-- How much a module declares. -/
def moduleRemark (module : Module) : String :=
  remark <| "Parsed module `" ++ module.name ++ "`: " ++
    toString module.ports.length ++ " ports, " ++
    toString module.signals.length ++ " signals, " ++
    toString module.alwaysBlocks.length ++ " always blocks, " ++
    toString module.assigns.length ++ " assigns"

/-- A row with the samples of a signal. -/
def traceRow (length : Nat) (signal : String × Trace) : String :=
  Text.padded length signal.1 ++ "  " ++
    String.ofList (signal.2.values.toList.map fun bit => if bit then '1' else '0')

/-- A row for each signal. Names are padded to the largest size of a name in
bytes. -/
def waveformTable (waveform : Waveform) : String :=
  let length := (waveform.signals.names.map String.utf8ByteSize).foldl max 0
  lines (waveform.signals.entries.map (traceRow length))

/-- The counters of a run. -/
def simulationRemark (result : SimulationResult) : String :=
  remark <| "Simulated `" ++ result.moduleName ++ "`: " ++
    toString result.stats.totalSteps ++ " steps, " ++
    toString result.stats.signalCount ++ " signals, " ++
    toString result.stats.eventCount ++ " events, " ++
    Decimal.fixed 1 result.stats.coverage ++ "% activity"

/-- A line with the result of a case. -/
def resultLine (result : Regression.CaseResult) : String :=
  "test " ++ result.id ++ " (" ++ result.name ++ ") ... " ++
    if result.passed then "ok" else "FAILED"

/-- The messages of the failures, if there are any. -/
def failureLines (report : Regression.Report) : List String :=
  if report.isSuccess then []
  else
    ["", "failures:"] ++ report.failures.map fun failure =>
      "    " ++ failure.id ++ ": " ++ failure.message.getD ""

/-- The counts of a category. -/
def categoryLine (entry : Regression.Category × Regression.Tally) : String :=
  entry.1.spelling ++ ": " ++ toString entry.2.passed ++ " passed; " ++
    toString entry.2.failed ++ " failed"

/-- A report: the results, the failures, the counts of each category and those of
all cases. -/
def reportText (report : Regression.Report) : String :=
  lines (("running " ++ toString report.tally.total ++ " cases") ::
    report.results.map resultLine ++ failureLines report ++ [""] ++
    report.byCategory.map categoryLine ++ [report.summary])

/-- The cases of each suite. -/
def listing (registry : Regression.Registry) : String :=
  lines (registry.suites.entries.flatMap fun suite =>
    (suite.1 ++ ":") :: (suite.2.filterMap registry.get?).map fun case =>
      "    " ++ case.id ++ "  " ++ case.name)

end MiniVerilog.Command
