import MiniVerilog.Command.Arguments
import MiniVerilog.Command.Text
import MiniVerilog.File.Directory
import MiniVerilog.Json.Simulation
import MiniVerilog.Regression.Builtin
import MiniVerilog.Regression.Run
import MiniVerilog.Settings.Load
import MiniVerilog.Testbench.Basic
import MiniVerilog.Waveform.Dump

/-! # What an invocation does

An invocation reads files and then has a plan: what it prints, the file it writes
in between, and how it ends. A plan can be carried out on a directory.
-/

namespace MiniVerilog.Command

/-- The reason why an invocation ends before it has a plan. -/
inductive CommandError where
  | unreadable (file : String) (reason : FileError)
  | noModule (file : String)
  | settings (reason : SettingsError)
  | simulation (reason : SimulationError)
  | registry (reason : Regression.RegistryError)
  deriving DecidableEq, Repr

/-- The wording of the error. -/
def CommandError.message : CommandError → String
  | unreadable file reason => "cannot read " ++ file ++ ": " ++ reason.message
  | noModule file => "no module found in " ++ file
  | settings reason => reason.message
  | simulation reason => reason.message
  | registry reason => reason.message

/-- What is printed and written, and the code at the end. The remarks stand apart
from the output and are printed after the file is written. -/
structure Plan where
  output : String := ""
  file : Option (String × String) := none
  remarks : String := ""
  exitCode : Nat := 0
  deriving DecidableEq, Repr

/-- Prints an error. -/
def Plan.failure (message : String) : Plan where
  remarks := "error: " ++ message ++ "\n"
  exitCode := 1

/-- How files are read. -/
abbrev Reader := String → Except FileError String

/-- The text of a source file. -/
def source (read : Reader) (file : String) : Except CommandError String :=
  (read file).mapError (.unreadable file)

/-- The module of a source file. -/
def module (read : Reader) (file : String) : Except CommandError Module := do
  match Module.ofSource? (← source read file) with
  | some module => return module
  | none => throw (.noModule file)

/-- Remarks, unless they are not wanted. -/
def Invocation.remarks (invocation : Invocation) (text : String) : String :=
  if invocation.quiet then "" else text

/-- The settings: those of the given file, or those of the project if it has any. -/
def Invocation.settings (invocation : Invocation) (read : Reader) :
    Except CommandError Settings :=
  let loaded := match invocation.settingsPath with
    | some path => Settings.ofFile (read path)
    | none => Settings.ofOptionalFile (read Settings.fileName)
  loaded.mapError .settings

namespace Plan

/-- Lists tokens. -/
def lex (file : String) (format : Format) (text : String) : Plan :=
  let tokens := Token.scan text
  { output := match format with
      | .text => tokenTable tokens
      | .json => (Json.array (tokens.map Token.json)).pretty ++ "\n"
    remarks := remark
      ("Lexed " ++ toString tokens.length ++ " tokens from " ++ file) }

/-- Reports what the linter finds. Errors end with code 1. -/
def check (file : String) (format : Format) (colored : Bool) (text : String) : Plan :=
  let report := Lint.Report.ofSource text
  let sourceFile : SourceFile := ⟨file, text⟩
  { output := match format with
      | .text => Diagnostic.allText colored sourceFile report.diagnostics
      | .json => Diagnostic.allJson sourceFile report.diagnostics
    remarks := lintRemark file report
    exitCode := if report.isValid then 0 else 1 }

/-- Prints a module. -/
def parse (module : Module) : Plan where
  output := module.json.pretty ++ "\n"
  remarks := moduleRemark module

/-- Prints a waveform, and perhaps writes a dump of it. -/
def simulate (result : SimulationResult) (dump : Option String) (format : Format) : Plan where
  output := match format with
    | .text => waveformTable result.waveform
    | .json => result.json.pretty ++ "\n"
  file := dump.map fun path => (path, result.waveform.dump result.moduleName)
  remarks :=
    simulationRemark result ++ ((dump.map fun path => remark ("Waveform: " ++ path)).getD "")

/-- Writes a testbench, or prints it. -/
def testbench (module : Module) (output : Option String) : Plan :=
  let text := Testbench.text module
  match output with
  | some path =>
    { file := (path, text)
      remarks := remark ("Wrote " ++ module.name ++ "_tb to " ++ path) }
  | none => { output := text }

/-- Prints a report. Failures end with code 1. -/
def regress (report : Regression.Report) (format : Format) : Plan where
  output := match format with
    | .text => reportText report
    | .json => report.json.pretty ++ "\n"
  remarks := match format with
    | .text => ""
    | .json => remark report.summary
  exitCode := if report.isSuccess then 0 else 1

end Plan

/-- The plan of an invocation, unless it fails. The remarks are still all there. -/
def Invocation.fullPlan (invocation : Invocation) (terminal : Bool) (read : Reader) :
    Except CommandError Plan := do
  match invocation.action with
  | .lex file format => return .lex file format (← source read file)
  | .check file format =>
    let colored := match invocation.color with
      | .auto => terminal
      | .always => true
      | .never => false
    return .check file format colored (← source read file)
  | .parse file => return .parse (← module read file)
  | .simulate file overrides dump format =>
    let config := overrides.apply (← invocation.settings read).simulation
    let text ← source read file
    let result ← (SimulationResult.ofSource text config).mapError .simulation
    return .simulate result dump format
  | .testbench file output => return .testbench (← module read file) output
  | .listCases =>
    discard (invocation.settings read)
    return { output := listing Regression.Builtin.registry }
  | .regress selection failFast format =>
    let settings := (← invocation.settings read).regression
    let standard :=
      if settings.suites.isEmpty then Regression.Selection.everything
      else .suites settings.suites
    let report ← (Regression.Builtin.registry.run (failFast || settings.failFast)
      (selection.getD standard)).mapError .registry
    return .regress report format

/-- The plan of an invocation. Errors are printed even if remarks are not wanted. -/
def Invocation.plan (invocation : Invocation) (terminal : Bool) (read : Reader) : Plan :=
  match invocation.fullPlan terminal read with
  | .ok plan => { plan with remarks := invocation.remarks plan.remarks }
  | .error reason => .failure reason.message

/-- The files that an invocation may read. -/
def Invocation.inputs (invocation : Invocation) : List String :=
  let settings := invocation.settingsPath.getD Settings.fileName
  match invocation.action with
  | .lex file _ | .check file _ | .parse file | .testbench file _ => [file]
  | .simulate file .. => [settings, file]
  | .listCases | .regress .. => [settings]

/-- The name and the version of the program. -/
def versionText : String :=
  "rivet 0.1.0\n"

/-- How the program is used. -/
def helpText : String :=
  lines ["Usage: rivet [OPTIONS] VERB", "",
    "  lex FILE         list the tokens of a source file",
    "  check FILE       report what the linter finds",
    "  parse FILE       print the first module as JSON",
    "  sim FILE         simulate the first module",
    "  testbench FILE   write a testbench for the first module",
    "  regress          run the built-in suites"]

/-- The files that a request may read. -/
def Request.inputs : Request → List String
  | run invocation => invocation.inputs
  | version | help => []

/-- The plan of a request. -/
def Request.plan (request : Request) (terminal : Bool) (read : Reader) : Plan :=
  match request with
  | .version => { output := versionText }
  | .help => { output := helpText }
  | .run invocation => invocation.plan terminal read

/-- What is left after a plan is carried out. -/
structure Outcome where
  output : String
  remarks : String
  exitCode : Nat
  directory : Directory

/-- Carries out a plan on a directory. If the file cannot be written, an error
stands in place of the remarks. -/
def Plan.perform (plan : Plan) (directory : Directory) : Outcome :=
  match plan.file with
  | none => ⟨plan.output, plan.remarks, plan.exitCode, directory⟩
  | some (path, text) =>
    match directory.write path text with
    | .ok changed => ⟨plan.output, plan.remarks, plan.exitCode, changed⟩
    | .error reason =>
      let failed := failure reason.message
      ⟨plan.output, failed.remarks, failed.exitCode, directory⟩

/-- Runs the program on a directory, with its output not on a terminal. -/
def run (arguments : List String) (directory : Directory) : Except UsageError Outcome := do
  let request ← Request.ofArguments arguments
  return (request.plan false directory.read).perform directory

end MiniVerilog.Command
