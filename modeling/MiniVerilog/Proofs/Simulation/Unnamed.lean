import MiniVerilog.Proofs.Module.Forest
import MiniVerilog.Proofs.Simulation.Shape

/-! # The empty name

A declaration without a name is not simulated, and a continuous assignment without a target means
nothing, so neither brings the empty name into a run. What an always block writes to the empty
name is staged like everything else: it enters the values and the log, but no trace
(`MiniVerilog.Simulator.run_keeps_names`, `MiniVerilog.Simulator.run_keeps_names_unnamed`).
-/

namespace MiniVerilog

/-- An always block assigns the empty name. -/
def Module.AssignsUnnamed (module : Module) : Prop :=
  ∃ block ∈ module.alwaysBlocks, "" ∈ StatementTree.targetsOfBody (module.trees block.body)

/-- No value, no event and no trace of the state has the empty name, and there are as many values
as at the start. -/
structure SimulationState.ExcludesUnnamed (start state : SimulationState) : Prop where
  values : state.values.contains "" = false
  events : ∀ event ∈ state.events.toList, event.signal ≠ ""
  waveform : state.waveform.signals.contains "" = false
  size : state.values.size = start.values.size

theorem Module.not_mem_trackedNames_empty (module : Module) : "" ∉ module.trackedNames :=
  fun tracked => (mem_trackedNames_iff_ne.mp tracked).2 rfl

namespace Simulator

theorem contains_initial (simulator : Simulator) (name : String) :
    simulator.initial.values.contains name = true ↔ name ∈ simulator.module.trackedNames := by
  rw [NameMap.contains_eq_isSome, get?_initial]
  split <;> simp_all

section MadeFrom

variable {simulator : Simulator} {module : Module} {config : SimulationConfig}
  (made : simulator.MadeFrom module config)

include made

/-- A step writes the empty name only by an always block. -/
theorem MadeFrom.assignsUnnamed (writes : simulator.Writes "") : module.AssignsUnnamed :=
  (made.tracked_or_assigned writes).resolve_left module.not_mem_trackedNames_empty

/-- Whatever the blocks assign, every other name has a value exactly if it is tracked. -/
theorem MadeFrom.contains_values_run_of_ne {name : String} (named : name ≠ "") (steps : Nat) :
    (simulator.run steps simulator.initial).values.contains name = true ↔
      name ∈ simulator.module.trackedNames := by
  refine simulator.contains_values_run_of (fun writes => ?_) steps
  rw [made.module_eq]
  exact Module.mem_trackedNames_iff_ne.mpr ⟨made.declaresOrAssigns writes, named⟩

/-- If no block assigns the empty name, a run does not know it. -/
theorem MadeFrom.excludesUnnamed (unassigned : ¬ module.AssignsUnnamed) (steps : Nat) :
    simulator.initial.ExcludesUnnamed (simulator.run steps simulator.initial) := by
  have unwritten : ¬ simulator.Writes "" := fun writes => unassigned (made.assignsUnnamed writes)
  have untracked := simulator.module.not_mem_trackedNames_empty
  have values := simulator.contains_values_run_of (fun writes => (unwritten writes).elim) steps
  constructor
  · exact Bool.eq_false_iff.mpr (mt values.mp untracked)
  · intro event member same
    exact unwritten (same ▸ (simulator.run_events steps event member).1)
  · exact Bool.eq_false_iff.mpr (mt (contains_waveform_run steps "").mp untracked)
  · apply NameMap.size_eq_of_contains
    intro name
    rw [Bool.eq_iff_iff, contains_initial]
    by_cases named : name = ""
    · rw [named, values]
    · exact made.contains_values_run_of_ne named steps

end MadeFrom

/-- **The empty name can come only from an always block**, and even then only into the values and
the log: every other name has a value exactly if the module declares or assigns it, and so has
every trace. -/
theorem run_keeps_names {module : Module} {config : SimulationConfig} {simulator : Simulator}
    (made : Simulator.make module config = .ok simulator) (steps : Nat) :
    let state := simulator.run steps simulator.initial
    (¬ module.AssignsUnnamed → simulator.initial.ExcludesUnnamed state) ∧
      (∀ name, name ≠ "" → (state.values.contains name = true ↔ module.DeclaresOrAssigns name)) ∧
      ∀ name, state.waveform.signals.contains name = true ↔
        module.DeclaresOrAssigns name ∧ name ≠ "" := by
  have origin := madeFrom_of_make made
  refine ⟨fun unassigned => origin.excludesUnnamed unassigned steps, ?_, ?_⟩
  · intro name named
    rw [origin.contains_values_run_of_ne named, origin.module_eq, Module.mem_trackedNames_iff_ne,
      and_iff_left named]
  · intro name
    rw [contains_waveform_run, origin.module_eq, Module.mem_trackedNames_iff_ne]

/-- A port without a name and a continuous assignment without a target beside a block that
counts. -/
theorem run_keeps_names_counter :
    ∃ module simulator, Simulator.make module { clocks := [⟨"c", 1⟩] } = .ok simulator ∧
      module.DeclaresOrAssigns "" ∧
      (simulator.run 3 simulator.initial).values.get? "n" = some 3 ∧
      simulator.initial.ExcludesUnnamed (simulator.run 3 simulator.initial) := by
  let module : Module :=
    { name := "up"
      ports := [⟨"c", .input, 1, false, 1⟩, ⟨"", .input, 1, false, 1⟩,
        ⟨"n", .output, 3, false, 1⟩]
      assigns := [⟨"", "1", 1⟩]
      alwaysBlocks := [⟨["c"], [0], 1⟩]
      statements := ⟨#[.assign "n" "n + 1" false 1]⟩ }
  have made : Simulator.make module { clocks := [⟨"c", 1⟩] } = .ok _ :=
    make_eq_ok (by decide +kernel) (by decide +kernel)
  refine ⟨module, _, made, ?_, ?_, (run_keeps_names made 3).1 ?_⟩
  · exact .inl (by decide)
  · decide +kernel
  · unfold Module.AssignsUnnamed
    decide +kernel

/-- A block whose only statement has no target. After a step the empty name has a value, which no
trace shows, and there is a value more than at the start. -/
theorem run_keeps_names_unnamed :
    ∃ module simulator, module.statements.IsForest module.roots ∧ module.WidthsPositive ∧
      Simulator.make module { clocks := [⟨"c", 1⟩] } = .ok simulator ∧
      (simulator.run 1 simulator.initial).values.get? "" = some 1 ∧
      (∃ event ∈ (simulator.run 1 simulator.initial).events.toList, event.signal = "") ∧
      (simulator.run 1 simulator.initial).values.size = simulator.initial.values.size + 1 ∧
      ¬ simulator.initial.ExcludesUnnamed (simulator.run 1 simulator.initial) := by
  let module : Module :=
    { name := "m"
      ports := [⟨"c", .input, 1, false, 1⟩]
      alwaysBlocks := [⟨["c"], [0], 1⟩]
      statements := ⟨#[.assign "" "1" true 1]⟩ }
  have made : Simulator.make module { clocks := [⟨"c", 1⟩] } = .ok _ :=
    make_eq_ok (by decide +kernel) (by decide +kernel)
  have start : Pool.empty.IsForest ([] ++ (Statement.assign "" "1" true 1).children) := .empty
  have forest : module.statements.IsForest module.roots := start.alloc
  refine ⟨module, _, forest, ⟨by decide, by decide⟩, made, ?_, ?_, ?_, ?_⟩
  · decide +kernel
  · decide +kernel
  · decide +kernel
  · intro excludes
    have value := excludes.values
    revert value
    decide +kernel

end Simulator

end MiniVerilog
