import MiniVerilog.NameMap
import MiniVerilog.Number.Value

/-! # Waveforms

A waveform samples every signal at the same times. A sample only tells whether
the value is 0. The errors of a simulation and of the export of its waveform are
one type.
-/

namespace MiniVerilog

/-- The reason why a simulation or the export of its waveform is not possible. -/
inductive SimulationError where
  /-- The source text has no module. -/
  | parseFailed
  /-- A stimulus or a filter names no signal of the module. -/
  | unknownSignal (name : String)
  | zeroHalfPeriod (signal : String)
  /-- The waveform cannot be written. -/
  | waveformIo (reason : String)
  deriving DecidableEq, Repr

/-- The wording of the error. -/
def SimulationError.message : SimulationError → String
  | parseFailed => "Failed to parse Verilog module"
  | unknownSignal name => "unknown signal `" ++ name ++ "`"
  | zeroHalfPeriod signal => "clock `" ++ signal ++ "` has a zero half period"
  | waveformIo reason => "waveform I/O error: " ++ reason

/-- The samples of one signal, and the times at which a sample differs from the
one before. -/
structure Trace where
  values : Array Bool
  transitions : Array Nat := #[]
  deriving DecidableEq, Repr

namespace Trace

/-- Adds a sample taken at a time. The last sample is looked at before the new one
is added, so that the samples can grow in place. -/
def sample (time : Nat) (bit : Bool) : Trace → Trace
  | ⟨values, transitions⟩ =>
    let moved := values.back?.any (· != bit)
    ⟨values.push bit, if moved then transitions.push time else transitions⟩

/-- The last sample. -/
def final? (trace : Trace) : Option Bool :=
  trace.values.back?

end Trace

/-- The traces of signals, with the times of their samples. -/
structure Waveform where
  times : Array Nat
  signals : NameMap Trace
  deriving DecidableEq, Repr

namespace Waveform

/-- The sample of a value. -/
def bitOf (value : Value) : Bool :=
  value != 0

/-- A waveform with one sample at time 0, given the values of the signals. -/
def seeded (initial : NameMap Value) : Waveform where
  times := #[0]
  signals := initial.mapWithName fun _ value => ⟨#[bitOf value], #[]⟩

/-- Samples every signal at a time. A name without a value counts as 0. -/
def sample (waveform : Waveform) (time : Nat) (lookup : String → Option Value) : Waveform where
  times := waveform.times.push time
  signals := waveform.signals.mapWithName fun name trace =>
    trace.sample time (bitOf ((lookup name).getD 0))

/-- The trace of a signal. -/
def signal? (waveform : Waveform) (name : String) : Option Trace :=
  waveform.signals.get? name

/-- The last sample of a signal. -/
def final? (waveform : Waveform) (name : String) : Option Bool :=
  (waveform.signal? name).bind (·.final?)

/-- Keeps the traces of the named signals, all of which have to exist. -/
def retain (waveform : Waveform) (names : List String) : Except SimulationError Waveform :=
  match names.find? fun name => !waveform.signals.contains name with
  | some missing => .error (.unknownSignal missing)
  | none => .ok { waveform with signals := waveform.signals.filterNames names.contains }

end Waveform

end MiniVerilog
