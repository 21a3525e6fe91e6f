import Mathlib.Algebra.Order.Floor.Div
import Mathlib.Data.Nat.Count
import MiniVerilog.Proofs.Simulation.Waking

/-! # What the stimulus does to an input

A name that the module does not assign changes by the stimulus alone. In every step it gets the
value of its last drive, or else changes between 0 and 1 if one of its clocks toggles, or else keeps
its value (`MiniVerilog.Simulator.valueOf_step_free`). All clocks look at the values before the
step, so several clocks toggle a name once. Without drives the value after a run depends only on
the number of steps in which a clock toggles (`MiniVerilog.Simulator.valueOf_run_toggled`), and one
clock toggles in as many steps as the half period fits into the run, rounded up
(`MiniVerilog.Simulator.run_stimulates`).
-/

namespace MiniVerilog

namespace Value

/-- A value after a number of toggles: 1 follows on 0, and 0 follows on all other values. -/
def toggled (start : Value) (count : Nat) : Value :=
  if count = 0 then start
  else if start = 0 then Int64.ofNat (count % 2)
  else Int64.ofNat ((count + 1) % 2)

theorem ofNat_succ_mod_two (count : Nat) :
    Int64.ofNat ((count + 1) % 2) = ofBool (Int64.ofNat (count % 2) == 0) := by
  rw [Nat.add_mod]
  rcases Nat.mod_two_eq_zero_or_one count with even | odd
  · rw [even]
    rfl
  · rw [odd]
    rfl

/-- **One more toggling negates the value**: after the first one it is 0 or 1. -/
theorem toggled_succ (start : Value) (count : Nat) :
    toggled start (count + 1) = ofBool (toggled start count == 0) := by
  unfold toggled
  rw [if_neg (Nat.succ_ne_zero count)]
  by_cases first : count = 0
  · subst first
    by_cases zero : start = 0
    · rw [if_pos zero, if_pos rfl, zero]
      rfl
    · rw [if_neg zero, if_pos rfl, beq_eq_false_iff_ne.mpr zero]
      rfl
  · rw [if_neg first]
    split
    · exact ofNat_succ_mod_two count
    · exact ofNat_succ_mod_two (count + 1)

/-- Every width has room for a truth value. -/
theorem truncate_ofBool (width : Nat) (condition : Bool) :
    truncate width (ofBool condition) = ofBool condition := by
  unfold truncate
  split
  · rename_i narrow
    have room : 1 < Nat.pow 2 width := Nat.one_lt_two_pow narrow.1.ne'
    cases condition with
    | false =>
        change Int64.ofNat (0 % Nat.pow 2 width) = 0
        rw [Nat.zero_mod]
        rfl
    | true =>
        change Int64.ofNat (1 % Nat.pow 2 width) = 1
        rw [Nat.mod_eq_of_lt room]
        rfl
  · rfl

end Value

/-- A value of 0 or 1 fits in every width. -/
theorem Module.mask_ofBool (module : Module) (name : String) (condition : Bool) :
    module.mask name (Value.ofBool condition) = Value.ofBool condition := by
  unfold mask
  split
  · rfl
  · cases module.widthOf? name with
    | none => rfl
    | some width => exact Value.truncate_ofBool width condition

/-- The module does not assign the name, neither continuously nor anywhere inside an always
block. -/
structure Module.LeavesFree (module : Module) (name : String) : Prop where
  assigns : ∀ assign ∈ module.assigns, assign.target ≠ name
  blocks : ∀ block ∈ module.alwaysBlocks,
    name ∉ StatementTree.targetsOfBody (module.trees block.body)

namespace SimulationConfig

variable (config : SimulationConfig) (name : String)

/-- The value of the last listed drive of a name at a time. -/
def driven? (time : Nat) : Option Value :=
  ((config.drives.filter fun drive => drive.time = time ∧ drive.signal = name).getLast?).map
    (·.value)

/-- A clock of the name toggles at a time. -/
def Toggles (time : Nat) : Prop :=
  ∃ clock ∈ config.clocks, clock.signal = name ∧ clock.halfPeriod ∣ time

instance : DecidablePred (config.Toggles name) := fun time =>
  inferInstanceAs (Decidable (∃ clock ∈ config.clocks,
    clock.signal = name ∧ clock.halfPeriod ∣ time))

/-- What the stimulus makes of the value of a name in the step with a time. -/
def stimulated (module : Module) (time : Nat) (value : Value) : Value :=
  match config.driven? name time with
  | some driven => module.mask name driven
  | none => if config.Toggles name time then Value.ofBool (value == 0) else value

variable {config name}

/-- A name without drives is never driven. -/
theorem driven?_eq_none (idle : ∀ drive ∈ config.drives, drive.signal ≠ name) (time : Nat) :
    config.driven? name time = none := by
  rw [driven?, List.filter_eq_nil_iff.mpr fun drive member here =>
    idle drive member (of_decide_eq_true here).2]
  rfl

/-- A single clock toggles at the multiples of its half period. -/
theorem toggles_iff {halfPeriod : Nat}
    (single : config.clocks.filter (·.signal = name) = [⟨name, halfPeriod⟩]) (time : Nat) :
    config.Toggles name time ↔ halfPeriod ∣ time := by
  have listed : config.Toggles name time ↔
      ∃ clock ∈ config.clocks.filter (·.signal = name), clock.halfPeriod ∣ time := by
    simp only [Toggles, List.mem_filter, decide_eq_true_eq, and_assoc]
  rw [listed, single]
  simp only [List.mem_singleton, exists_eq_left]

/-- **A single clock toggles once in every half period**, at its start. -/
theorem count_toggles {halfPeriod : Nat} (positive : 0 < halfPeriod)
    (single : config.clocks.filter (·.signal = name) = [⟨name, halfPeriod⟩]) (steps : Nat) :
    Nat.count (config.Toggles name) steps = steps ⌈/⌉ halfPeriod := by
  induction steps with
  | zero => rw [Nat.count_zero, zero_ceilDiv]
  | succ steps ih =>
      have next : steps + 1 + halfPeriod - 1 = (steps + halfPeriod - 1) + 1 := by omega
      have last : steps + halfPeriod - 1 + 1 = steps + halfPeriod := by omega
      rw [Nat.count_succ, ih, Nat.ceilDiv_eq_add_pred_div, Nat.ceilDiv_eq_add_pred_div, next,
        Nat.succ_div, last]
      simp only [toggles_iff single, Nat.dvd_add_self_right]

end SimulationConfig

namespace Simulator

variable {simulator : Simulator} {module : Module} {config : SimulationConfig} {name : String}
  (origin : simulator.MadeFrom module config)

include origin

/-- No turn of a block changes what is pending for a name that the module does not assign. -/
theorem pending_stagedBefore_free (free : module.LeavesFree name) (state : SimulationState)
    (index : Nat) :
    state.pending (simulator.stagedBefore state index) name =
      state.pending (simulator.stageInputs state) name := by
  induction index with
  | zero => rfl
  | succ index ih =>
      cases here : simulator.blocks[index]? with
      | none => rw [stagedBefore_succ_of_none _ _ here, ih]
      | some block =>
          rw [stagedBefore_succ _ _ here, ← ih, runBlock]
          split
          · rw [pending_stageAll, lastWrite?_eq_none]
            · rfl
            · have member := List.mem_of_getElem? here
              rw [origin.blocks_eq] at member
              obtain ⟨source, listed, rfl⟩ := List.mem_map.mp member
              rintro write inside rfl
              exact free.blocks source listed (simulator.blockWrites_targets state _ write inside)
          · rfl

/-- What the module does not assign, only the stimulus writes. -/
theorem pending_stageStep_free (free : module.LeavesFree name) (state : SimulationState) :
    state.pending (simulator.stageStep state) name =
      state.pending (simulator.stageAll state .change
        (simulator.stageAll state .edge {} (simulator.toggles state))
        (simulator.currentDrives state)) name := by
  rw [stageStep_eq_stagedBefore, pending_stagedBefore_free origin free, stageInputs,
    pending_stageAll, lastWrite?_eq_none]
  · rfl
  · intro write inside
    obtain ⟨assign, listed, rfl⟩ := List.mem_map.mp inside
    rw [origin.module_eq] at listed
    exact free.assigns assign (List.mem_filter.mp listed).1

/-- **Any number of clocks toggles a name once**, since they look at the values before the step. -/
theorem pending_toggles (state : SimulationState) :
    state.pending (simulator.stageAll state .edge {} (simulator.toggles state)) name =
      if config.Toggles name state.time then Value.ofBool (state.valueOf name == 0)
      else state.valueOf name := by
  rw [pending_stageAll]
  split
  · rename_i toggling
    obtain ⟨clock, listed, rfl, divides⟩ := toggling
    have written : clock.signal ∈ (simulator.toggles state).map Prod.fst := by
      refine List.mem_map_of_mem (f := Prod.fst)
        (List.mem_map_of_mem (List.mem_filter.mpr ⟨?_, ?_⟩))
      · rwa [origin.clocks_eq]
      · exact decide_eq_true (Nat.mod_eq_zero_of_dvd divides)
    obtain ⟨value, last, inside⟩ := exists_lastWrite? written
    obtain ⟨other, -, same⟩ := List.mem_map.mp inside
    obtain ⟨here, rfl⟩ := Prod.mk.inj same
    rw [last, here]
    exact simulator.module.mask_ofBool _ _
  · rename_i still
    rw [lastWrite?_eq_none]
    · rfl
    · intro write inside here
      obtain ⟨clock, listed, rfl⟩ := List.mem_map.mp inside
      obtain ⟨member, divides⟩ := List.mem_filter.mp listed
      rw [origin.clocks_eq] at member
      exact still ⟨clock, member, here, Nat.dvd_of_mod_eq_zero (of_decide_eq_true divides)⟩

/-- Of the drives of a step the last listed one counts. -/
theorem lastWrite?_currentDrives (state : SimulationState) :
    lastWrite? name (simulator.currentDrives state) = config.driven? name state.time := by
  rw [lastWrite?, currentDrives, List.filter_map, List.filter_filter, List.getLast?_map,
    Option.map_map, origin.drives_eq, SimulationConfig.driven?]
  simp only [Bool.decide_and, Bool.and_comm]
  rfl

/-- **A name that is not assigned follows the stimulus.** -/
theorem valueOf_step_free (free : module.LeavesFree name) (state : SimulationState) :
    (simulator.step state).valueOf name =
      config.stimulated name module state.time (state.valueOf name) := by
  rw [valueOf_step, pending_stageStep_free origin free, pending_stageAll,
    lastWrite?_currentDrives origin, pending_toggles origin, origin.module_eq,
    SimulationConfig.stimulated]
  cases config.driven? name state.time with
  | none => rfl
  | some driven => rfl

/-- Without drives the value depends only on the number of steps in which a clock toggles. -/
theorem valueOf_run_toggled (free : module.LeavesFree name)
    (idle : ∀ drive ∈ config.drives, drive.signal ≠ name) (steps : Nat) :
    (simulator.run steps simulator.initial).valueOf name =
      Value.toggled (simulator.initial.valueOf name) (Nat.count (config.Toggles name) steps) := by
  induction steps with
  | zero => rfl
  | succ steps ih =>
      rw [run_succ, valueOf_step_free origin free, time_run_initial, SimulationConfig.stimulated,
        SimulationConfig.driven?_eq_none idle, Nat.count_succ, ih]
      simp only
      split
      · rw [Value.toggled_succ]
      · rw [Nat.add_zero]

omit origin

/-- **The stimulus law of an input.** A tracked name that the module does not assign starts with its
initial value and follows the stimulus in every step. With a single clock and without drives it has
toggled once for every half period that has begun. -/
theorem run_stimulates (made : Simulator.make module config = .ok simulator)
    (tracked : name ∈ module.trackedNames) (free : module.LeavesFree name) :
    let value (steps : Nat) := (simulator.run steps simulator.initial).valueOf name
    (∀ steps, (simulator.run steps simulator.initial).values.get? name = some (value steps)) ∧
      value 0 = module.initialValue name ∧
      (∀ steps, value (steps + 1) = config.stimulated name module steps (value steps)) ∧
      ∀ halfPeriod, config.clocks.filter (·.signal = name) = [⟨name, halfPeriod⟩] →
        (∀ drive ∈ config.drives, drive.signal ≠ name) → ∀ steps,
          Nat.count (config.Toggles name) steps = steps ⌈/⌉ halfPeriod ∧
          value steps = Value.toggled (value 0) (steps ⌈/⌉ halfPeriod) := by
  have origin := madeFrom_of_make made
  intro value
  refine ⟨?_, ?_, fun steps => ?_, ?_⟩
  · exact simulator.get?_run_tracked (origin.module_eq ▸ tracked)
  · change (simulator.initial.values.get? name).getD 0 = _
    rw [get?_initial, origin.module_eq, if_pos tracked, Option.getD_some]
  · have step := valueOf_step_free origin free (simulator.run steps simulator.initial)
    rwa [time_run_initial, ← run_succ] at step
  · intro halfPeriod single idle steps
    have listed : (⟨name, halfPeriod⟩ : ClockStimulus) ∈ config.clocks := by
      apply List.mem_of_mem_filter
      rw [single]
      exact List.mem_singleton_self _
    have positive := Nat.pos_of_ne_zero (origin.clocks _ listed).2
    have count := SimulationConfig.count_toggles positive single steps
    exact ⟨count, count ▸ valueOf_run_toggled origin free idle steps⟩

/-- A register that only a clock changes, which starts with 2, beside an input that is driven twice
in one step with values that are too wide for it. -/
theorem run_stimulates_clock :
    ∃ module simulator,
      Module.ofSource?
        "module t(input [1:0] d, output reg q); reg [1:0] a = 2; always @(a) q <= d; endmodule" =
          some module ∧
      Simulator.make module
        { clocks := [⟨"a", 3⟩], drives := [⟨1, "d", 5⟩, ⟨1, "d", 7⟩] } = .ok simulator ∧
      (simulator.run 2 simulator.initial).values.get? "d" = some 3 ∧
      (simulator.run 7 simulator.initial).values.get? "a" = some 0 := by
  let module : Module :=
    { name := "t"
      ports := [⟨"d", .input, 2, false, 1⟩, ⟨"q", .output, 1, false, 1⟩]
      signals := [⟨"q", .reg, 1, false, none, 1⟩, ⟨"a", .reg, 2, false, some 2, 1⟩]
      alwaysBlocks := [⟨["a"], [0], 1⟩]
      statements := ⟨#[.assign "q" "d" false 1]⟩ }
  let config : SimulationConfig :=
    { clocks := [⟨"a", 3⟩], drives := [⟨1, "d", 5⟩, ⟨1, "d", 7⟩] }
  have parsed :
      Module.ofSource?
        "module t(input [1:0] d, output reg q); reg [1:0] a = 2; always @(a) q <= d; endmodule" =
          some module := by decide +kernel
  have made : Simulator.make module config = .ok _ :=
    make_eq_ok (by decide +kernel) (by decide +kernel)
  have inputFree : module.LeavesFree "d" := ⟨by decide, by decide +kernel⟩
  have registerFree : module.LeavesFree "a" := ⟨by decide, by decide +kernel⟩
  obtain ⟨driven, -, step, -⟩ := run_stimulates made (by decide +kernel) inputFree
  obtain ⟨clocked, start, -, closed⟩ := run_stimulates made (by decide +kernel) registerFree
  refine ⟨module, _, parsed, made, ?_, ?_⟩
  · rw [driven 2, step 1]
    decide +kernel
  · rw [clocked 7, (closed 3 rfl (by decide) 7).2, start, Nat.ceilDiv_eq_add_pred_div]
    decide +kernel

end Simulator

end MiniVerilog
