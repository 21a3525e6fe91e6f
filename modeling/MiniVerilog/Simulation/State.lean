import MiniVerilog.Module.Basic
import MiniVerilog.Simulation.Config
import MiniVerilog.Waveform.Basic

/-! # Simulators and their states

A simulator is what stays the same over a run: the module and its stimulus. A
state is what a step changes. It starts with the declared initial values.
-/

namespace MiniVerilog

/-- Why an event happened. -/
inductive EventKind where
  /-- By an assignment or a drive. -/
  | change
  /-- By a clock. -/
  | edge
  deriving DecidableEq, Repr

/-- A change of a signal in the step with a time. -/
structure Event where
  time : Nat
  signal : String
  value : Value
  kind : EventKind
  deriving DecidableEq, Repr

/-- A module with its stimulus. The statements of the always blocks are kept as
trees. -/
structure Simulator where
  module : Module
  trigger : TriggerMode
  clocks : List ClockStimulus
  drives : List Drive
  blocks : List (AlwaysBlock × List StatementTree)

/-- The state between two steps. The time is the number of steps so far. -/
structure SimulationState where
  time : Nat
  values : NameMap Value
  previous : NameMap Value
  events : Array Event
  waveform : Waveform

namespace Module

/-- The names a module declares or assigns. -/
def trackedNames (module : Module) : List String :=
  let declared := module.ports.map (·.name) ++ module.signals.map (·.name)
  let assigned := module.assigns.map (·.target) ++
    module.alwaysBlocks.flatMap fun block => module.assignedTargets block.body
  (declared ++ assigned).filter (· != "")

/-- A value as the signal with a name can hold it. Only a declared name has a
width. -/
def mask (module : Module) (name : String) (value : Value) : Value :=
  if name = "" then value
  else
    match module.widthOf? name with
    | some width => Value.truncate width value
    | none => value

/-- The value that a name starts with. -/
def initialValue (module : Module) (name : String) : Value :=
  module.mask name (((module.signal? name).bind (·.initialValue)).getD 0)

/-- The values of all tracked names before the first step. -/
def initialValues (module : Module) : NameMap Value :=
  .ofList (module.trackedNames.map fun name => (name, module.initialValue name))

end Module

namespace Simulator

/-- Checks that a clock drives a known signal and moves. -/
def checkClock (known : String → Bool) (clock : ClockStimulus) : Except SimulationError Unit :=
  if !known clock.signal then .error (.unknownSignal clock.signal)
  else if clock.halfPeriod = 0 then .error (.zeroHalfPeriod clock.signal)
  else .ok ()

/-- Checks that a drive names a known signal. -/
def checkDrive (known : String → Bool) (drive : Drive) : Except SimulationError Unit :=
  if known drive.signal then .ok () else .error (.unknownSignal drive.signal)

/-- The simulator of a module, unless the stimulus does not fit. Clocks are
checked before drives. -/
def make (module : Module) (config : SimulationConfig) : Except SimulationError Simulator := do
  let known := module.initialValues.contains
  config.clocks.forM (checkClock known)
  config.drives.forM (checkDrive known)
  return {
    module
    trigger := config.trigger
    clocks := config.clocks
    drives := config.drives
    blocks := module.alwaysBlocks.map fun block => (block, module.trees block.body) }

/-- The state before the first step. -/
def initial (simulator : Simulator) : SimulationState :=
  let values := simulator.module.initialValues
  { time := 0
    values := values
    previous := values
    events := #[]
    waveform := .seeded values }

end Simulator

end MiniVerilog
