import MiniVerilog.Number.Value

/-! # What a simulation is asked to do -/

namespace MiniVerilog

/-- How always blocks are triggered. -/
inductive TriggerMode where
  /-- A block runs when a name in its sensitivity list changes in the current
  step; edges mean nothing. -/
  | level
  /-- A block runs when one of its edges happens, or when a name without an edge
  changes. -/
  | edge
  deriving DecidableEq, Repr

namespace TriggerMode

/-- The word for the mode. -/
def spelling : TriggerMode → String
  | level => "level"
  | edge => "edge"

/-- The mode a word stands for. -/
def ofSpelling? (word : String) : Option TriggerMode :=
  [level, edge].find? fun mode => mode.spelling = word

end TriggerMode

/-- A clock that toggles every `halfPeriod` steps, first at step 0. -/
structure ClockStimulus where
  signal : String
  halfPeriod : Nat
  deriving DecidableEq, Repr

/-- A value put on a signal at one step. -/
structure Drive where
  time : Nat
  signal : String
  value : Value
  deriving DecidableEq, Repr

/-- The steps to run, the signals to keep in the waveform (all if there are
none), the trigger mode and the stimulus. -/
structure SimulationConfig where
  maxSteps : Nat := 100
  signals : List String := []
  trigger : TriggerMode := .level
  clocks : List ClockStimulus := []
  drives : List Drive := []
  deriving DecidableEq, Repr

end MiniVerilog
