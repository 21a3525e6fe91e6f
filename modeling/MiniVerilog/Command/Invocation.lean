import MiniVerilog.Command.Stimulus
import MiniVerilog.Regression.Registry

/-! # Invocations

What the command line asks for, after its arguments have been read.
-/

namespace MiniVerilog.Command

/-- Whether the text output is colored. -/
inductive Color where
  /-- Color if the output is a terminal. -/
  | auto
  | always
  | never
  deriving DecidableEq, Repr

/-- The word for the choice. -/
def Color.spelling : Color → String
  | auto => "auto"
  | always => "always"
  | never => "never"

/-- The form of an output. -/
inductive Format where
  | text
  | json
  deriving DecidableEq, Repr

/-- The word for the form. -/
def Format.spelling : Format → String
  | text => "text"
  | json => "json"

/-- What goes before the settings of the project in a simulation. -/
structure Overrides where
  maxSteps : Option Nat := none
  signals : List String := []
  edge : Bool := false
  clocks : List ClockStimulus := []
  drives : List Drive := []
  deriving DecidableEq, Repr

namespace Overrides

/-- A list, or another one if it is empty. -/
def listOr {α : Type} (items standard : List α) : List α :=
  if items.isEmpty then standard else items

/-- The configuration after the overrides. -/
def apply (overrides : Overrides) (config : SimulationConfig) : SimulationConfig where
  maxSteps := overrides.maxSteps.getD config.maxSteps
  signals := listOr overrides.signals config.signals
  trigger := if overrides.edge then .edge else config.trigger
  clocks := listOr overrides.clocks config.clocks
  drives := listOr overrides.drives config.drives

end Overrides

/-- What is to be done. -/
inductive Action where
  /-- List the tokens of a file. -/
  | lex (file : String) (format : Format)
  /-- Report what the linter finds in a file. -/
  | check (file : String) (format : Format)
  /-- Print the module of a file. -/
  | parse (file : String)
  /-- Simulate the module of a file, and perhaps write a dump. -/
  | simulate (file : String) (overrides : Overrides) (dump : Option String) (format : Format)
  /-- Write a testbench for the module of a file. -/
  | testbench (file : String) (output : Option String)
  /-- List the built-in cases. -/
  | listCases
  /-- Run built-in cases. What is not said here is left to the settings. -/
  | regress (selection : Option Regression.Selection) (failFast : Bool) (format : Format)
  deriving DecidableEq, Repr

/-- What is to be done, and the choices that all actions share. -/
structure Invocation where
  quiet : Bool := false
  verbosity : Nat := 0
  color : Color := .auto
  /-- The file of the settings, if it is not the one of the project. -/
  settingsPath : Option String := none
  action : Action
  deriving DecidableEq, Repr

end MiniVerilog.Command
