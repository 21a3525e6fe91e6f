import MiniVerilog.Proofs.Waveform.Samples

/-! # The waveform as a history

A step samples the values that it has made current, so the waveform of a run tells for every
number of steps so far which values were 0 then (`MiniVerilog.Simulator.run_tellsHistory`).
-/

namespace MiniVerilog

theorem Trace.values_sample (trace : Trace) (time : Nat) (bit : Bool) :
    (trace.sample time bit).values.toList = trace.values.toList ++ [bit] := by
  cases trace
  exact Array.toList_push

namespace Simulator

variable (simulator : Simulator)

/-- The samples of a run were taken at the times from 0 to the number of steps. -/
theorem times_run (steps : Nat) :
    (simulator.run steps simulator.initial).waveform.times.toList = List.range (steps + 1) := by
  induction steps with
  | zero => rfl
  | succ steps ih =>
      have now := congrArg (· + 1) (simulator.time_run_initial steps)
      rw [run_succ, List.range_succ, ← ih, ← now]
      exact Array.toList_push

/-- A step adds the sample of the value that it makes current. -/
theorem values_signal?_step {state : SimulationState} {name : String} {trace : Trace}
    (held : (simulator.step state).waveform.signals.get? name = some trace) :
    ∃ earlier, state.waveform.signals.get? name = some earlier ∧
      trace.values.toList = earlier.values.toList ++
        [Waveform.bitOf ((simulator.step state).valueOf name)] := by
  have sampled : (simulator.step state).waveform.signals.get? name =
      (state.waveform.signals.get? name).map fun earlier => earlier.sample (state.time + 1)
        (Waveform.bitOf ((simulator.step state).valueOf name)) :=
    NameMap.get?_mapWithName _ _ name
  rw [sampled] at held
  obtain ⟨earlier, before, rfl⟩ := Option.map_eq_some_iff.mp held
  exact ⟨earlier, before, earlier.values_sample _ _⟩

/-- The samples of a name are those of its values after every number of steps. -/
theorem values_signal?_run {steps : Nat} {name : String} {trace : Trace}
    (held : (simulator.run steps simulator.initial).waveform.signals.get? name = some trace) :
    trace.values.toList = (List.range (steps + 1)).map fun time =>
      Waveform.bitOf ((simulator.run time simulator.initial).valueOf name) := by
  induction steps generalizing trace with
  | zero =>
      have seeded : (simulator.run 0 simulator.initial).waveform.signals.get? name =
          (simulator.initial.values.get? name).map fun value => ⟨#[Waveform.bitOf value], #[]⟩ :=
        NameMap.get?_mapWithName _ _ name
      rw [seeded] at held
      obtain ⟨value, start, rfl⟩ := Option.map_eq_some_iff.mp held
      have current : (simulator.run 0 simulator.initial).valueOf name = value := by
        rw [run_zero, SimulationState.valueOf, start, Option.getD_some]
      exact congrArg (fun value => [Waveform.bitOf value]) current.symm
  | succ steps ih =>
      rw [run_succ] at held
      obtain ⟨earlier, before, samples⟩ := simulator.values_signal?_step held
      rw [samples, ih before, List.range_succ (n := steps + 1), List.map_append, ← run_succ]
      rfl

/-- What a simulator knows after a number of steps tells the values that the names of a module had
after every number of steps so far. -/
structure TellsHistory (simulator : Simulator) (module : Module) (steps : Nat) : Prop where
  time : (simulator.run steps simulator.initial).time = steps
  times : (simulator.run steps simulator.initial).waveform.times.toList = List.range (steps + 1)
  start : ∀ name ∈ module.trackedNames,
    (simulator.run 0 simulator.initial).values.get? name = some (module.initialValue name)
  samples : ∀ name ∈ module.trackedNames,
    ∃ trace, (simulator.run steps simulator.initial).waveform.signals.get? name = some trace ∧
      trace.values.size = steps + 1 ∧ ∀ time ≤ steps, ∃ value,
        (simulator.run time simulator.initial).values.get? name = some value ∧
          trace.values[time]? = some (value != 0)
  previous : 0 < steps → ∀ name,
    (simulator.run steps simulator.initial).previous.get? name =
      (simulator.run (steps - 1) simulator.initial).values.get? name

/-- **The waveform of a run is the history of the values.** There is one sample for each time up to
the number of steps, and the sample of a name at a time tells whether its value after that many
steps was another than 0. -/
theorem run_tellsHistory {module : Module} {config : SimulationConfig} {simulator : Simulator}
    (made : Simulator.make module config = .ok simulator) (steps : Nat) :
    simulator.TellsHistory module steps := by
  obtain rfl := module_of_make made
  have start (name : String) (tracked : name ∈ simulator.module.trackedNames) :
      simulator.initial.values.get? name = some (simulator.module.initialValue name) := by
    rw [get?_initial, if_pos tracked]
  constructor
  case time => exact (simulator.time_run steps _).trans (Nat.zero_add steps)
  case times => exact simulator.times_run steps
  case start => exact start
  case samples =>
    intro name tracked
    have inWaveform := (simulator.contains_waveform_run steps name).mpr tracked
    rw [NameMap.contains_eq_isSome] at inWaveform
    obtain ⟨trace, held⟩ := Option.isSome_iff_exists.mp inWaveform
    have samples := simulator.values_signal?_run held
    refine ⟨trace, held, ?_, fun time within => ?_⟩
    · rw [← Array.length_toList, samples, List.length_map, List.length_range]
    · have present : (simulator.initial.values.get? name).isSome := by
        rw [start name tracked, Option.isSome_some]
      obtain ⟨value, current⟩ :=
        Option.isSome_iff_exists.mp (simulator.isSome_get?_run present time)
      refine ⟨value, current, ?_⟩
      rw [← Array.getElem?_toList, samples, List.getElem?_map,
        List.getElem?_range (Nat.lt_succ_of_le within), Option.map_some, SimulationState.valueOf,
        current, Option.getD_some]
      rfl
  case previous =>
    intro _ name
    rw [previous_run]

/-- The samples of a counter of two bits that starts at 2. -/
theorem run_tellsHistory_counter :
    ∃ module simulator,
      Module.ofSource? "module up(input c); reg [1:0] n = 2; always @(c) n <= n + 1; endmodule" =
        some module ∧
      Simulator.make module { clocks := [⟨"c", 1⟩] } = .ok simulator ∧
      (simulator.run 3 simulator.initial).waveform.signals.get? "n" =
        some ⟨#[true, true, false, true], #[2, 3]⟩ ∧
      simulator.TellsHistory module 3 := by
  let block : AlwaysBlock := ⟨["c"], [0], 1⟩
  let module : Module :=
    { name := "up"
      ports := [⟨"c", .input, 1, false, 1⟩]
      signals := [⟨"n", .reg, 2, false, some 2, 1⟩]
      alwaysBlocks := [block]
      statements := ⟨#[.assign "n" "n + 1" false 1]⟩ }
  let simulator : Simulator :=
    ⟨module, .level, [⟨"c", 1⟩], [], [(block, [.assign "n" "n + 1" false 1])]⟩
  have parsed : Module.ofSource?
      "module up(input c); reg [1:0] n = 2; always @(c) n <= n + 1; endmodule" = some module := by
    decide +kernel
  have made : Simulator.make module { clocks := [⟨"c", 1⟩] } = .ok simulator := by
    simp only [module, block, simulator]
    rfl
  exact ⟨module, simulator, parsed, made, by decide +kernel, run_tellsHistory made 3⟩

end Simulator

end MiniVerilog
