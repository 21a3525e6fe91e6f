import MiniVerilog.File.Error
import MiniVerilog.Simulation.Config

/-! # Settings of a project -/

namespace MiniVerilog

/-- What a regression run does when the command line does not say it: the suites
to run, all if there are none, and whether to stop at the first failure. -/
structure RegressionSettings where
  suites : List String := []
  failFast : Bool := false
  deriving DecidableEq, Repr

/-- The settings of a project. -/
structure Settings where
  simulation : SimulationConfig := {}
  regression : RegressionSettings := {}
  deriving DecidableEq, Repr

/-- The name of the file that holds the settings. -/
def Settings.fileName : String :=
  "rivet.toml"

/-- The reason why settings are refused. -/
inductive SettingsError where
  | unreadable (reason : FileError)
  /-- The text is no document, or holds something else than settings. -/
  | malformed
  /-- A clock names no signal. -/
  | namelessClock
  /-- A clock never toggles. -/
  | stillClock (signal : String)
  /-- The drive at a time names no signal. -/
  | namelessDrive (time : Nat)
  deriving DecidableEq, Repr

/-- The wording of the error. -/
def SettingsError.message : SettingsError → String
  | unreadable reason => "failed to read configuration: " ++ reason.message
  | malformed => "failed to parse configuration"
  | namelessClock => "validation error: simulation.clocks entry has an empty signal name"
  | stillClock signal => "validation error: clock '" ++ signal ++ "' has a zero half_period"
  | namelessDrive time =>
    "validation error: simulation.drives entry at time " ++ toString time ++ " names no signal"

end MiniVerilog
