import MiniVerilog.Diagnostic.Code
import MiniVerilog.Waveform.Basic

/-! # Why a regression case fails -/

namespace MiniVerilog.Regression

/-- The reason why a case fails. -/
inductive Failure where
  /-- A module is needed, and the source has none. -/
  | noModule
  /-- The source was meant to have no module. -/
  | unexpectedModule (name : String)
  /-- A simulation is needed, and there was none. -/
  | notSimulated
  /-- The simulation cannot start. -/
  | setup (reason : SimulationError)
  /-- The source was meant to be valid. -/
  | unexpectedErrors (codes : List DiagnosticCode)
  | missingDiagnostic (code : DiagnosticCode)
  | noTrace (signal : String)
  /-- Something is not what was expected; both are given as they are shown. -/
  | mismatch (subject expected actual : String)
  /-- A check of the case itself failed with this message. -/
  | refused (message : String)
  /-- A check of the case itself broke off, perhaps with a text. -/
  | brokenOff (reason : Option String)
  deriving DecidableEq, Repr

/-- The wording of the failure. -/
def Failure.message : Failure → String
  | noModule => "source did not parse"
  | unexpectedModule name => "expected no module, parsed `" ++ name ++ "`"
  | notSimulated => "case was not simulated"
  | setup reason => reason.message
  | unexpectedErrors codes =>
    "expected no errors, got " ++ ", ".intercalate (codes.map (·.spelling))
  | missingDiagnostic code => "expected diagnostic " ++ code.spelling
  | noTrace signal => "no trace for `" ++ signal ++ "`"
  | mismatch subject expected actual =>
    subject ++ ": expected " ++ expected ++ ", got " ++ actual
  | refused message => message
  | brokenOff reason => "panicked: " ++ reason.getD "unknown panic payload"

/-- A list as it is shown. -/
def shownList {α : Type} (shown : α → String) (items : List α) : String :=
  "[" ++ ", ".intercalate (items.map shown) ++ "]"

/-- An optional value as it is shown. -/
def shownOption {α : Type} (shown : α → String) : Option α → String
  | some value => "Some(" ++ shown value ++ ")"
  | none => "None"

/-- A text as it is shown. -/
def shownText (text : String) : String :=
  "\"" ++ text ++ "\""

/-- Fails unless two values are equal. -/
def expectEqual {α : Type} [DecidableEq α] (subject : String) (shown : α → String)
    (actual expected : α) : Except Failure Unit :=
  if actual = expected then .ok ()
  else .error (.mismatch subject (shown expected) (shown actual))

/-- Fails unless a statement is true. -/
def expectTrue (subject : String) (actual : Bool) : Except Failure Unit :=
  expectEqual subject toString actual true

end MiniVerilog.Regression
