import MiniVerilog.Json.Module
import MiniVerilog.Simulation.Run

/-! # Results of simulations as JSON

A sample is written as 0 or 1.
-/

namespace MiniVerilog

def Trace.json (trace : Trace) : Json :=
  .object [("values", .array (trace.values.toList.map fun bit => .nat bit.toNat)),
    ("transitions", .array (trace.transitions.toList.map .nat))]

def Waveform.json (waveform : Waveform) : Json :=
  .object [("time", .array (waveform.times.toList.map .nat)),
    ("signals", .object (waveform.signals.entries.map fun entry => (entry.1, entry.2.json)))]

def SimulationStats.json (stats : SimulationStats) : Json :=
  .object [("total_steps", .nat stats.totalSteps), ("signal_count", .nat stats.signalCount),
    ("event_count", .nat stats.eventCount), ("coverage", .float stats.coverage)]

/-- The word for the reason of an event. -/
def EventKind.spelling : EventKind → String
  | change => "change"
  | edge => "edge"

def Event.json (event : Event) : Json :=
  .object [("time", .nat event.time), ("signal", .string event.signal),
    ("value", .value event.value), ("kind", .string event.kind.spelling)]

def SimulationResult.json (result : SimulationResult) : Json :=
  .object [("module_name", .string result.moduleName), ("waveform", result.waveform.json),
    ("stats", result.stats.json), ("events", .array (result.events.toList.map Event.json))]

end MiniVerilog
