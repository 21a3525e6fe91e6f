import MiniVerilog.Module.Elaborate
import MiniVerilog.Simulation.Step

/-! # Simulating a source text -/

namespace MiniVerilog

/-- Counters of a run. -/
structure SimulationStats where
  totalSteps : Nat
  signalCount : Nat
  eventCount : Nat
  /-- Events for each step in percent, at most 100. -/
  coverage : Float

/-- Events for each step in percent, at most 100. -/
def activity (events steps : Nat) : Float :=
  let percent := Float.ofNat events * 100.0 / Float.ofNat (max steps 1)
  if percent < 100.0 then percent else 100.0

/-- The counters of a state. -/
def SimulationState.stats (state : SimulationState) : SimulationStats where
  totalSteps := state.time
  signalCount := state.values.size
  eventCount := state.events.size
  coverage := activity state.events.size state.time

/-- What a run gives. The waveform has the signals that were asked for. -/
structure SimulationResult where
  moduleName : String
  waveform : Waveform
  stats : SimulationStats
  events : Array Event

/-- Simulates the first module of a source text. -/
def SimulationResult.ofSource (source : String) (config : SimulationConfig) :
    Except SimulationError SimulationResult := do
  let some module := Module.ofSource? source | throw .parseFailed
  let simulator ← Simulator.make module config
  let state := simulator.run config.maxSteps simulator.initial
  let waveform ←
    if config.signals.isEmpty then pure state.waveform else state.waveform.retain config.signals
  return { moduleName := module.name, waveform, stats := state.stats, events := state.events }

/-- The waveform of the first module of a source text without stimulus. -/
def simulate (source : String) (steps : Nat) : Except SimulationError Waveform := do
  let result ← SimulationResult.ofSource source { maxSteps := steps }
  return result.waveform

end MiniVerilog
