import MiniVerilog.Lint.Survey
import MiniVerilog.Regression.Failure
import MiniVerilog.Simulation.Run

/-! # Regression cases

A case has a source text, which may be simulated, and says what is expected of
it. A case holds when all its expectations hold, and then its own check.
-/

namespace MiniVerilog.Regression

/-- What a case exercises. -/
inductive Category where
  /-- A single function. -/
  | unit
  /-- Several stages one after another. -/
  | integration
  /-- A behaviour that was broken before. -/
  | regression
  /-- A large input or a long run. -/
  | performance
  /-- A malformed or degenerate input. -/
  | edgeCase
  deriving DecidableEq, Repr

namespace Category

/-- The word for the category. -/
def spelling : Category → String
  | unit => "unit"
  | integration => "integration"
  | regression => "regression"
  | performance => "performance"
  | edgeCase => "edge_case"

/-- Every category once, in the order of reports. -/
def all : List Category :=
  [unit, integration, regression, performance, edgeCase]

/-- The place of the category in reports. -/
def place (category : Category) : Nat :=
  all.idxOf category

end Category

/-- How much a failure matters. -/
inductive Priority where
  | low | medium | high | critical
  deriving DecidableEq, Repr

/-- The word for the priority. -/
def Priority.spelling : Priority → String
  | low => "low"
  | medium => "medium"
  | high => "high"
  | critical => "critical"

/-- What is expected of a source text or of its simulation. -/
inductive Expectation where
  /-- The text has a module. -/
  | parses
  | parseFails
  /-- The linter finds no errors. -/
  | valid
  /-- The linter finds something with this code. -/
  | diagnostic (code : DiagnosticCode)
  /-- The value of a signal after the simulation. -/
  | finalValue (signal : String) (value : Value)
  /-- The samples of a signal. -/
  | waveform (signal : String) (values : List Nat)
  /-- The number of times at which samples were taken. -/
  | samples (count : Nat)
  deriving DecidableEq, Repr

/-- What a case can look at: the module of its source, what the linter says about
it, and the state after the simulation. -/
structure Context where
  module? : Option Module
  report : Lint.Report
  state? : Option SimulationState

/-- A regression case. It is simulated when a number of steps is given. -/
structure Case where
  id : String
  name : String
  category : Category := .unit
  priority : Priority := .medium
  source : String := ""
  steps : Option Nat := none
  clocks : List ClockStimulus := []
  trigger : TriggerMode := .level
  expectations : List Expectation := []
  check : Option (Context → Except Failure Unit) := none

namespace Context

/-- The module of the source. -/
def module (context : Context) : Except Failure Module :=
  match context.module? with
  | some module => .ok module
  | none => .error .noModule

/-- The state after the simulation. -/
def state (context : Context) : Except Failure SimulationState :=
  match context.state? with
  | some state => .ok state
  | none => .error .notSimulated

/-- Checks an expectation. -/
def verify (context : Context) : Expectation → Except Failure Unit
  | .parses => do discard context.module
  | .parseFails =>
    match context.module? with
    | none => .ok ()
    | some module => .error (.unexpectedModule module.name)
  | .valid =>
    if context.report.isValid then .ok ()
    else .error (.unexpectedErrors (context.report.errors.map (·.code)))
  | .diagnostic code =>
    if context.report.hasCode code then .ok () else .error (.missingDiagnostic code)
  | .finalValue signal value => do
    expectEqual ("final value of `" ++ signal ++ "`") (shownOption fun v => toString v.toInt)
      ((← context.state).values.get? signal) (some value)
  | .waveform signal values => do
    match (← context.state).waveform.signal? signal with
    | none => throw (.noTrace signal)
    | some trace =>
      expectEqual ("trace of `" ++ signal ++ "`") (shownList toString)
        (trace.values.toList.map Bool.toNat) values
  | .samples count => do
    expectEqual "sample count" toString (← context.state).waveform.times.size count

end Context

namespace Case

/-- What the simulation of the case is asked to do. -/
def simulationConfig (case : Case) : SimulationConfig where
  maxSteps := case.steps.getD 0
  trigger := case.trigger
  clocks := case.clocks

/-- The state after the simulation of a module, if the case asks for one. -/
def simulate (case : Case) (module : Module) : Except Failure (Option SimulationState) :=
  match case.steps with
  | none => .ok none
  | some steps =>
    match Simulator.make module case.simulationConfig with
    | .ok simulator => .ok (some (simulator.run steps simulator.initial))
    | .error reason => .error (.setup reason)

/-- What the case can look at. -/
def context (case : Case) : Except Failure Context := do
  let module? := Module.ofSource? case.source
  let state? ← match module? with
    | some module => case.simulate module
    | none => pure none
  return { module?, report := Lint.Report.ofSource case.source, state? }

/-- Checks the case up to the first failure. -/
def run (case : Case) : Except Failure Unit := do
  let context ← case.context
  case.expectations.forM context.verify
  match case.check with
  | some check => check context
  | none => return

end Case

end MiniVerilog.Regression
