import Mathlib.Algebra.Group.Int.Defs
import MiniVerilog.Proofs.Module.Widths
import MiniVerilog.Proofs.Simulation.Journal

/-! # The shape and the range of states

A step writes only names of the module, so the names of a state are the same over a whole
run, and it writes only masked values, so every value is a number of as many bits as its
name has (`MiniVerilog.Simulator.run_shape`). For the current values this follows from the
journal: they are those at the start or those of events.
-/

namespace MiniVerilog

namespace Value

/-- The value is a number that has so many bits at most. -/
def HasBits (width : Nat) (value : Value) : Prop :=
  0 ≤ value.toInt ∧ value.toInt < 2 ^ width

/-- A truncated value has no more bits than the width says. -/
theorem hasBits_truncate {width : Nat} (positive : 0 < width) (narrow : width < 64)
    (value : Value) : (truncate width value).HasBits width := by
  have bound : value.toUInt64.toNat % Nat.pow 2 width < 2 ^ width :=
    Nat.mod_lt _ (Nat.two_pow_pos width)
  have small : 2 ^ width ≤ 2 ^ 63 := Nat.pow_le_pow_right (by decide) (Nat.le_of_lt_succ narrow)
  rw [truncate, if_pos ⟨positive, narrow⟩, HasBits,
    Int64.toInt_ofNat_of_lt (Nat.lt_of_lt_of_le bound small)]
  exact ⟨Int.natCast_nonneg _, by exact_mod_cast bound⟩

end Value

/-- A name with less than 64 bits can have the value. -/
def Module.Fits (module : Module) (name : String) (value : Value) : Prop :=
  ∀ width, module.widthOf? name = some width → width < 64 → value.HasBits width

/-- A masked value fits its name. -/
theorem Module.fits_mask {module : Module} {name : String} (named : name ≠ "")
    (positive : ∀ width, module.widthOf? name = some width → 0 < width) (value : Value) :
    module.Fits name (module.mask name value) := by
  intro width declared narrow
  rw [mask, if_neg named, declared]
  exact Value.hasBits_truncate (positive width declared) narrow value

/-- The current and the previous values, the waveform and the events have exactly the names
that the module declares or assigns, and all values fit. -/
structure SimulationState.Shaped (state : SimulationState) (module : Module) : Prop where
  values : ∀ name, state.values.contains name = true ↔ module.DeclaresOrAssigns name
  previous : ∀ name, state.previous.contains name = true ↔ module.DeclaresOrAssigns name
  waveform : ∀ name, state.waveform.signals.contains name = true ↔ module.DeclaresOrAssigns name
  events : ∀ event ∈ state.events.toList, module.DeclaresOrAssigns event.signal
  valuesFit : ∀ name value, state.values.get? name = some value → module.Fits name value
  previousFit : ∀ name value, state.previous.get? name = some value → module.Fits name value
  eventsFit : ∀ event ∈ state.events.toList, module.Fits event.signal event.value

/-- The last value of a log is the one at the start or that of an event. -/
theorem Event.lastValue_cases (log : List Event) (name : String) (start : Value) :
    Event.lastValue log name start = start ∨
      ∃ event ∈ log, event.signal = name ∧ event.value = Event.lastValue log name start := by
  unfold Event.lastValue
  cases last : (log.filter fun event => event.signal = name).getLast? with
  | none => exact .inl rfl
  | some event =>
      obtain ⟨member, about⟩ := List.mem_filter.mp (List.mem_of_getLast? last)
      exact .inr ⟨event, member, of_decide_eq_true about, rfl⟩

namespace Simulator

variable (simulator : Simulator)

/-- The events of a step are of written names and have masked values. -/
theorem stageStep_events (state : SimulationState) :
    ∀ event ∈ (simulator.stageStep state).log, simulator.Writes event.signal ∧
      ∃ value, event.value = simulator.module.mask event.signal value := by
  let masked (staging : Staging) : Prop := ∀ event ∈ staging.log,
    simulator.Writes event.signal ∧
      ∃ value, event.value = simulator.module.mask event.signal value
  have start : masked {} := List.forall_mem_nil _
  refine simulator.stageStep_invariant state ?_ start
  intro kind staging write writes logged event member
  rcases simulator.stage_log state kind staging write with same | one
  · exact logged event (same ▸ member)
  · rw [one] at member
    rcases List.mem_append.mp member with old | new
    · exact logged event old
    · rw [List.mem_singleton.mp new]
      exact ⟨writes, write.2, rfl⟩

/-- **Every event of a run is of a name that can be written and has a masked value.** -/
theorem run_events (steps : Nat) :
    ∀ event ∈ (simulator.run steps simulator.initial).events.toList,
      simulator.Writes event.signal ∧
        ∃ value, event.value = simulator.module.mask event.signal value := by
  apply simulator.run_invariant fun state => ∀ event ∈ state.events.toList,
    simulator.Writes event.signal ∧
      ∃ value, event.value = simulator.module.mask event.signal value
  · intro state logged event member
    rw [events_step] at member
    rcases List.mem_append.mp member with old | new
    · exact logged event old
    · exact simulator.stageStep_events state event new
  · exact List.forall_mem_nil _

/-- Only written names are staged. -/
theorem writes_of_staged {state : SimulationState} {name : String}
    (staged : ((simulator.stageStep state).staged.get? name).isSome) : simulator.Writes name := by
  obtain ⟨value, held⟩ := Option.isSome_iff_exists.mp staged
  rw [(simulator.stageStep_recorded state).latest name] at held
  obtain ⟨event, member, rfl⟩ := List.mem_map.mp (List.mem_of_getLast? held)
  obtain ⟨logged, about⟩ := List.mem_filter.mp member
  exact of_decide_eq_true about ▸ (simulator.stageStep_events state event logged).1

/-- The values before the last step are those of the run without it. -/
theorem previous_run (steps : Nat) :
    (simulator.run steps simulator.initial).previous =
      (simulator.run (steps - 1) simulator.initial).values := by
  cases steps with
  | zero => rfl
  | succ steps =>
      rw [run_succ, Nat.add_sub_cancel]
      rfl

/-- A name that is written only if it is tracked has a value exactly if it is tracked. -/
theorem contains_values_run_of {name : String}
    (tracked : simulator.Writes name → name ∈ simulator.module.trackedNames) (steps : Nat) :
    (simulator.run steps simulator.initial).values.contains name = true ↔
      name ∈ simulator.module.trackedNames := by
  rw [NameMap.contains_eq_isSome]
  apply simulator.run_invariant fun state => (state.values.get? name).isSome = true ↔
    name ∈ simulator.module.trackedNames
  · intro state held
    rw [get?_step, Option.isSome_or, Bool.or_eq_true, held]
    exact or_iff_right_of_imp fun staged => tracked (simulator.writes_of_staged staged)
  · rw [get?_initial]
    split <;> simp_all

section Tracked

variable {simulator}
  (tracked : ∀ name, simulator.Writes name → name ∈ simulator.module.trackedNames)

include tracked

theorem contains_values_run (steps : Nat) (name : String) :
    (simulator.run steps simulator.initial).values.contains name = true ↔
      name ∈ simulator.module.trackedNames :=
  simulator.contains_values_run_of (tracked name) steps

omit tracked in
/-- The traces of a run are those of the tracked names. -/
theorem contains_waveform_run (steps : Nat) (name : String) :
    (simulator.run steps simulator.initial).waveform.signals.contains name = true ↔
      name ∈ simulator.module.trackedNames := by
  rw [NameMap.contains_eq_isSome]
  apply simulator.run_invariant fun state => (state.waveform.signals.get? name).isSome = true ↔
    name ∈ simulator.module.trackedNames
  · intro state held
    change ((NameMap.mapWithName _ state.waveform.signals).get? name).isSome = true ↔ _
    rw [NameMap.get?_mapWithName, Option.isSome_map]
    exact held
  · change ((NameMap.mapWithName _ simulator.initial.values).get? name).isSome = true ↔ _
    rw [NameMap.get?_mapWithName, Option.isSome_map, get?_initial]
    split <;> simp_all

/-- The current values fit, since those at the start do and those of the events. -/
theorem fits_values_run
    (positive : ∀ name width, simulator.module.widthOf? name = some width → 0 < width)
    (steps : Nat) {name : String} {value : Value}
    (held : (simulator.run steps simulator.initial).values.get? name = some value) :
    simulator.module.Fits name value := by
  have inside : name ∈ simulator.module.trackedNames := by
    rw [← contains_values_run tracked steps, NameMap.contains_eq_isSome, held]
    rfl
  have named : name ≠ "" := bne_iff_ne.mp (List.mem_filter.mp inside).2
  have current := (simulator.run_initial_journal steps).current name
  rw [SimulationState.valueOf, held, Option.getD_some, SimulationState.valueOf,
    get?_initial, if_pos inside, Option.getD_some] at current
  rw [current]
  rcases Event.lastValue_cases (simulator.run steps simulator.initial).events.toList name
    (simulator.module.initialValue name) with start | ⟨event, member, rfl, last⟩
  · rw [start]
    exact Module.fits_mask named (positive name) _
  · obtain ⟨-, value, masked⟩ := simulator.run_events steps event member
    rw [← last, masked]
    exact Module.fits_mask named (positive _) value

end Tracked

/-- A step writes only names that are tracked or that an always block assigns. -/
theorem MadeFrom.tracked_or_assigned {simulator : Simulator} {module : Module}
    {config : SimulationConfig} (made : simulator.MadeFrom module config) {name : String}
    (writes : simulator.Writes name) : name ∈ module.trackedNames ∨
      ∃ block ∈ module.alwaysBlocks,
        name ∈ StatementTree.targetsOfBody (module.trees block.body) := by
  obtain ⟨rfl, -, clocks, drives, blocks, knownClocks, knownDrives⟩ := made
  cases writes with
  | clock member => exact .inl (knownClocks _ (clocks ▸ member)).1
  | drive member => exact .inl (knownDrives _ (drives ▸ member))
  | assign member named =>
      have own := Module.mem_ownNames.mpr (.inr (.inr (List.mem_map.mpr ⟨_, member, rfl⟩)))
      exact .inl (Module.mem_trackedNames_iff_ne.mpr ⟨.inl own, named⟩)
  | block member assigned =>
      rw [blocks] at member
      obtain ⟨block, inside, rfl⟩ := List.mem_map.mp member
      exact .inr ⟨block, inside, assigned⟩

/-- What a simulator writes, its module declares or assigns. -/
theorem MadeFrom.declaresOrAssigns {simulator : Simulator} {module : Module}
    {config : SimulationConfig} (made : simulator.MadeFrom module config) {name : String}
    (writes : simulator.Writes name) : module.DeclaresOrAssigns name := by
  rcases made.tracked_or_assigned writes with tracked | assigned
  · exact (Module.mem_trackedNames_iff_ne.mp tracked).1
  · exact .inr assigned

/-- A step writes only names that the simulation keeps. -/
theorem MadeFrom.tracked {simulator : Simulator} {source : String} {module : Module}
    {config : SimulationConfig} (made : simulator.MadeFrom module config)
    (parsed : Module.ofSource? source = some module) :
    ∀ name, simulator.Writes name → name ∈ simulator.module.trackedNames := by
  intro name writes
  rw [made.module_eq]
  exact (Module.mem_trackedNames_iff parsed).mpr (made.declaresOrAssigns writes)

/-- **A run keeps the names and the ranges of a state.** -/
theorem run_shape {source : String} {module : Module} {config : SimulationConfig}
    {simulator : Simulator} (parsed : Module.ofSource? source = some module)
    (made : Simulator.make module config = .ok simulator) (steps : Nat) :
    (simulator.run steps simulator.initial).Shaped module := by
  have origin := madeFrom_of_make made
  have tracked := origin.tracked parsed
  obtain rfl := origin.module_eq
  have positive (name : String) (width : Nat) :
      simulator.module.widthOf? name = some width → 0 < width := Module.widthOf?_pos parsed
  have written := simulator.run_events steps
  constructor
  · intro name
    rw [contains_values_run tracked, Module.mem_trackedNames_iff parsed]
  · intro name
    rw [previous_run, contains_values_run tracked, Module.mem_trackedNames_iff parsed]
  · intro name
    rw [contains_waveform_run, Module.mem_trackedNames_iff parsed]
  · intro event member
    exact (Module.mem_trackedNames_iff parsed).mp (tracked _ (written event member).1)
  · intro name value held
    exact fits_values_run tracked positive steps held
  · intro name value held
    rw [previous_run] at held
    exact fits_values_run tracked positive (steps - 1) held
  · intro event member
    obtain ⟨writes, value, masked⟩ := written event member
    have named := bne_iff_ne.mp (List.mem_filter.mp (tracked _ writes)).2
    rw [masked]
    exact Module.fits_mask named (positive _) value

/-- The state of a counter of three bits that has gone round. -/
theorem run_shape_counter :
    ∃ module simulator,
      Module.ofSource? "module up(input c, output reg [2:0] n); always @(c) n <= n + 1; endmodule" =
        some module ∧
      Simulator.make module { clocks := [⟨"c", 1⟩] } = .ok simulator ∧
      (simulator.run 9 simulator.initial).values.get? "n" = some 1 ∧
      (simulator.run 9 simulator.initial).Shaped module := by
  let block : AlwaysBlock := ⟨["c"], [0], 1⟩
  let module : Module :=
    { name := "up"
      ports := [⟨"c", .input, 1, false, 1⟩, ⟨"n", .output, 3, false, 1⟩]
      signals := [⟨"n", .reg, 3, false, none, 1⟩]
      alwaysBlocks := [block]
      statements := ⟨#[.assign "n" "n + 1" false 1]⟩ }
  let simulator : Simulator :=
    ⟨module, .level, [⟨"c", 1⟩], [], [(block, [.assign "n" "n + 1" false 1])]⟩
  have parsed :
      Module.ofSource? "module up(input c, output reg [2:0] n); always @(c) n <= n + 1; endmodule" =
        some module := by decide +kernel
  have made : Simulator.make module { clocks := [⟨"c", 1⟩] } = .ok simulator := by
    simp only [module, block, simulator]
    rfl
  have wrapped : (simulator.run 9 simulator.initial).values.get? "n" = some 1 := by
    decide +kernel
  exact ⟨module, simulator, parsed, made, wrapped, run_shape parsed made 9⟩

end Simulator

end MiniVerilog
