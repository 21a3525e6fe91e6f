import MiniVerilog.Proofs.Simulation.Expression
import MiniVerilog.Proofs.Simulation.Shape

/-! # Combinational logic settles

Continuous assignments read the values of before the step, so a change of the inputs moves
through them one level a step. Where every assigned name has a rank above the words of its
expression, a name keeps its value once as many steps as its rank have gone by after the
last drive (`MiniVerilog.Simulator.Combinational.keeps`), and then nothing changes any more
(`MiniVerilog.Simulator.run_settles`).
-/

namespace MiniVerilog

/-- The names that are assigned continuously. -/
def Module.assignTargets (module : Module) : List String :=
  module.assigns.map (·.target)

namespace Simulator

variable (simulator : Simulator)

/-- Every target has the value of its expression. -/
def Settled (state : SimulationState) : Prop :=
  ∀ assign ∈ simulator.module.assigns, state.valueOf assign.target =
    simulator.module.mask assign.target
      (Expression.evaluate (simulator.lookup state) assign.expression)

/-- There are continuous assignments and drives only. The targets of the assignments are
distinct, each one ranks above all words of its expression, and from step `ending` on nothing
is driven. A target of rank 0, whose expression has no words, gets its value in step 0, so
`ending` must leave it that step. -/
structure Combinational (simulator : Simulator) (rank : String → Nat) (ending : Nat) : Prop where
  noBlocks : simulator.blocks = []
  noClocks : simulator.clocks = []
  distinct : simulator.module.assignTargets.Nodup
  named : ∀ assign ∈ simulator.module.assigns, assign.target ≠ ""
  ranked : ∀ assign ∈ simulator.module.assigns,
    ∀ word ∈ Text.wordsOf assign.expression, rank word < rank assign.target
  ended : ∀ drive ∈ simulator.drives, drive.time < ending
  begun : ∀ assign ∈ simulator.module.assigns, 0 < ending + rank assign.target

namespace Combinational

variable {simulator} {rank : String → Nat} {ending : Nat}
  (combinational : simulator.Combinational rank ending) (state : SimulationState)

include combinational

/-- A step stages its drives and its assignments. -/
theorem stageStep_eq :
    simulator.stageStep state =
      simulator.stageAll state .change
        (simulator.stageAll state .change {} (simulator.currentDrives state))
        (simulator.assignedValues state) := by
  rw [stageStep, combinational.noBlocks, List.foldl_nil, stageInputs, toggles,
    combinational.noClocks]
  rfl

/-- Every assignment gives its target the value of its expression. -/
theorem mem_assignedValues {assign : Assign} (member : assign ∈ simulator.module.assigns) :
    (assign.target, Expression.evaluate (simulator.lookup state) assign.expression) ∈
      simulator.assignedValues state := by
  refine List.mem_map.mpr ⟨assign, List.mem_filter.mpr ⟨member, ?_⟩, rfl⟩
  exact bne_iff_ne.mpr (combinational.named assign member)

theorem nodup_assignedValues : ((simulator.assignedValues state).map Prod.fst).Nodup := by
  rw [assignedValues, List.map_map]
  exact combinational.distinct.sublist (List.filter_sublist.map _)

/-- After the last drive nothing is driven. -/
theorem currentDrives_eq_nil (late : ending ≤ state.time) : simulator.currentDrives state = [] := by
  rw [currentDrives, List.filter_eq_nil_iff.mpr]
  · rfl
  · intro drive member now
    have before := combinational.ended drive member
    rw [of_decide_eq_true now] at before
    exact absurd before (Nat.not_lt.mpr late)

/-- A target gets the value that its expression has before the step. -/
theorem valueOf_step_target {assign : Assign} (member : assign ∈ simulator.module.assigns) :
    (simulator.step state).valueOf assign.target =
      simulator.module.mask assign.target
        (Expression.evaluate (simulator.lookup state) assign.expression) := by
  have last := lastWrite?_eq_some (combinational.nodup_assignedValues state)
    (combinational.mem_assignedValues state member)
  rw [valueOf_step, combinational.stageStep_eq, pending_stageAll, last]
  rfl

/-- Once nothing is driven, a name that is not assigned keeps its value. -/
theorem valueOf_step_free {name : String} (free : name ∉ simulator.module.assignTargets)
    (late : ending ≤ state.time) : (simulator.step state).valueOf name = state.valueOf name := by
  have others : lastWrite? name (simulator.assignedValues state) = none := by
    apply lastWrite?_eq_none
    intro write member same
    obtain ⟨assign, inside, rfl⟩ := List.mem_map.mp member
    exact free (same ▸ List.mem_map_of_mem (List.mem_filter.mp inside).1)
  rw [valueOf_step, combinational.stageStep_eq, pending_stageAll, others,
    combinational.currentDrives_eq_nil state late]
  rfl

/-- Once nothing is driven and every target has the value of its expression, a step stages
nothing. -/
theorem stageStep_eq_empty (late : ending ≤ state.time) (settled : simulator.Settled state) :
    simulator.stageStep state = {} := by
  rw [combinational.stageStep_eq, combinational.currentDrives_eq_nil state late]
  apply stageAll_eq_self
  intro write member
  obtain ⟨assign, inside, rfl⟩ := List.mem_map.mp member
  exact (settled assign (List.mem_filter.mp inside).1).symm

end Combinational

section Runs

variable {simulator}
  (tracked : ∀ name, simulator.Writes name → name ∈ simulator.module.trackedNames)

include tracked

/-- The tracked names have values throughout a run, and no other names have. -/
theorem get?_run (steps : Nat) (name : String) :
    (simulator.run steps simulator.initial).values.get? name =
      if name ∈ simulator.module.trackedNames then
        some ((simulator.run steps simulator.initial).valueOf name)
      else none := by
  by_cases inside : name ∈ simulator.module.trackedNames
  · rw [if_pos inside, simulator.get?_run_tracked inside]
  · have kept := contains_values_run tracked steps name
    rw [NameMap.contains_eq_isSome] at kept
    rw [if_neg inside, ← Option.not_isSome_iff_eq_none]
    exact mt kept.mp inside

/-- Two states of a run in which a name has the same value look it up alike. -/
theorem lookup_run_congr {first second : Nat} {name : String}
    (same : (simulator.run first simulator.initial).valueOf name =
      (simulator.run second simulator.initial).valueOf name) :
    simulator.lookup (simulator.run first simulator.initial) name =
      simulator.lookup (simulator.run second simulator.initial) name := by
  rw [lookup, lookup, get?_run tracked, get?_run tracked, same]

variable {rank : String → Nat} {ending : Nat}
  (combinational : simulator.Combinational rank ending)

include combinational

/-- **A name keeps its value once as many steps as its rank have gone by after the last
drive.** The words of an expression rank lower, so they keep their values from a step
earlier on. -/
theorem Combinational.keeps {steps : Nat} {name : String} (late : ending + rank name ≤ steps) :
    (simulator.run (steps + 1) simulator.initial).valueOf name =
      (simulator.run steps simulator.initial).valueOf name := by
  induction steps using Nat.strong_induction_on generalizing name with
  | _ steps ih =>
      by_cases assigned : name ∈ simulator.module.assignTargets
      · obtain ⟨assign, member, rfl⟩ := List.mem_map.mp assigned
        have begun := combinational.begun assign member
        obtain ⟨before, rfl⟩ : ∃ before, steps = before + 1 := ⟨steps - 1, by omega⟩
        have same : ∀ word ∈ Text.wordsOf assign.expression,
            simulator.lookup (simulator.run (before + 1) simulator.initial) word =
              simulator.lookup (simulator.run before simulator.initial) word := by
          intro word inside
          have lower := combinational.ranked assign member word inside
          exact lookup_run_congr tracked (ih before (Nat.lt_succ_self before) (by omega))
        rw [run_succ _ (before + 1), combinational.valueOf_step_target _ member,
          Expression.evaluate_congr same, run_succ _ before,
          combinational.valueOf_step_target _ member]
      · rw [run_succ]
        apply combinational.valueOf_step_free _ assigned
        rw [time_run_initial]
        exact Nat.le_trans (Nat.le_add_right ending _) late

/-- Once all targets keep their values, these are the values of their expressions. -/
theorem Combinational.settled {steps depth : Nat}
    (bounded : ∀ assign ∈ simulator.module.assigns, rank assign.target ≤ depth)
    (late : ending + depth ≤ steps) :
    simulator.Settled (simulator.run steps simulator.initial) := by
  intro assign member
  have deep := bounded assign member
  rw [← combinational.keeps tracked (by omega), run_succ,
    combinational.valueOf_step_target _ member]

end Runs

/-- From a number of steps on every target has the value that its expression has in the same
state, the values stay as they are, and there are no events. -/
structure SettledFrom (simulator : Simulator) (start : Nat) : Prop where
  assigned : ∀ steps, start ≤ steps → ∀ assign ∈ simulator.module.assigns,
    (simulator.run steps simulator.initial).values.get? assign.target =
      some (simulator.module.mask assign.target (Expression.evaluate
        (simulator.lookup (simulator.run steps simulator.initial)) assign.expression))
  still : ∀ steps, start ≤ steps →
    (simulator.run steps simulator.initial).values =
      (simulator.run start simulator.initial).values
  quiet : ∀ steps, ∀ event ∈ (simulator.run steps simulator.initial).events.toList,
    event.time < start

/-- **A combinational network settles**: after the last drive and as many further steps as its ranks
are high nothing changes any more. -/
theorem Combinational.settledFrom {simulator : Simulator} {rank : String → Nat}
    {ending depth : Nat} (combinational : simulator.Combinational rank ending)
    (tracked : ∀ name, simulator.Writes name → name ∈ simulator.module.trackedNames)
    (bounded : ∀ assign ∈ simulator.module.assigns, rank assign.target ≤ depth) :
    simulator.SettledFrom (ending + depth) := by
  have idle (steps : Nat) (late : ending + depth ≤ steps) :
      simulator.stageStep (simulator.run steps simulator.initial) = {} := by
    apply combinational.stageStep_eq_empty
    · rw [time_run_initial]
      exact Nat.le_trans (Nat.le_add_right ending _) late
    · exact combinational.settled tracked bounded late
  have quiet := simulator.quietFrom_of_log_eq_nil fun steps late =>
    congrArg Staging.log (idle steps late)
  refine ⟨?_, quiet.still, quiet.quiet⟩
  intro steps late assign member
  have kept := tracked _ (.assign member (combinational.named assign member))
  rw [get?_run tracked, if_pos kept, combinational.settled tracked bounded late assign member]

/-- **Combinational logic settles.** The drives may be of targets too, since an assignment
is staged after them. -/
theorem run_settles {source : String} {module : Module} {config : SimulationConfig}
    {simulator : Simulator} (parsed : Module.ofSource? source = some module)
    (made : Simulator.make module config = .ok simulator)
    (rank : String → Nat) {ending depth : Nat}
    (noBlocks : module.alwaysBlocks = [])
    (distinct : module.assignTargets.Nodup)
    (ranked : ∀ assign ∈ module.assigns,
      ∀ word ∈ Text.wordsOf assign.expression, rank word < rank assign.target)
    (bounded : ∀ assign ∈ module.assigns, rank assign.target ≤ depth)
    (noClocks : config.clocks = [])
    (ended : ∀ drive ∈ config.drives, drive.time < ending)
    (begun : ∀ assign ∈ module.assigns, 0 < ending + rank assign.target) :
    simulator.SettledFrom (ending + depth) := by
  have origin := madeFrom_of_make made
  have tracked := origin.tracked parsed
  obtain ⟨rfl, -, clocks, drives, blocks, -, -⟩ := origin
  have combinational : simulator.Combinational rank ending := {
    noBlocks := by rw [blocks, noBlocks, List.map_nil]
    noClocks := clocks.trans noClocks
    distinct := distinct
    named := by
      intro assign member
      refine Module.DeclaresOrAssigns.ne_empty parsed (.inl (Module.mem_ownNames.mpr ?_))
      exact .inr (.inr (List.mem_map_of_mem member))
    ranked := ranked
    ended := drives ▸ ended
    begun := begun }
  exact combinational.settledFrom tracked bounded

/-- Two levels of logic behind an input that is driven in step 0 are settled from step 3 on. -/
theorem run_settles_two_levels :
    ∃ module simulator,
      Module.ofSource?
        "module two(input a); wire y; wire z; assign z = y | a; assign y = ~ a; endmodule" =
          some module ∧
      Simulator.make module { drives := [⟨0, "a", 1⟩] } = .ok simulator ∧
      simulator.SettledFrom (1 + 2) := by
  let module : Module :=
    { name := "two"
      ports := [⟨"a", .input, 1, false, 1⟩]
      signals := [⟨"y", .wire, 1, false, none, 1⟩, ⟨"z", .wire, 1, false, none, 1⟩]
      assigns := [⟨"z", "y | a", 1⟩, ⟨"y", "~ a", 1⟩] }
  let simulator : Simulator := ⟨module, .level, [], [⟨0, "a", 1⟩], []⟩
  let rank (name : String) : Nat := if name = "z" then 2 else if name = "y" then 1 else 0
  have parsed :
      Module.ofSource?
        "module two(input a); wire y; wire z; assign z = y | a; assign y = ~ a; endmodule" =
          some module := by decide +kernel
  have made : Simulator.make module { drives := [⟨0, "a", 1⟩] } = .ok simulator := by
    simp only [module, simulator]
    rfl
  refine ⟨module, simulator, parsed, made, run_settles parsed made rank rfl ?_ ?_ ?_ rfl ?_ ?_⟩ <;>
    decide +kernel

/-- A target that starts with another value than that of its empty expression, and that
nothing is driven for, has not settled before the first step, although all its ranks are 0. -/
theorem not_settledFrom_empty_expression :
    ∃ module simulator,
      Module.ofSource? "module m; reg y = 1; assign y = ; endmodule" = some module ∧
      Simulator.make module {} = .ok simulator ∧
      module.alwaysBlocks = [] ∧ module.assignTargets.Nodup ∧
      (∀ assign ∈ module.assigns, ∀ word ∈ Text.wordsOf assign.expression, 0 < 0) ∧
      ¬ simulator.SettledFrom (0 + 0) := by
  let module : Module :=
    { name := "m"
      signals := [⟨"y", .reg, 1, false, some 1, 1⟩]
      assigns := [⟨"y", "", 1⟩] }
  let simulator : Simulator := ⟨module, .level, [], [], []⟩
  have parsed : Module.ofSource? "module m; reg y = 1; assign y = ; endmodule" = some module := by
    decide +kernel
  have made : Simulator.make module {} = .ok simulator := by
    simp only [module, simulator]
    rfl
  refine ⟨module, simulator, parsed, made, rfl, ?_, ?_, ?_⟩
  · decide +kernel
  · decide +kernel
  · intro settled
    have assigned := settled.assigned 0 (Nat.le_refl 0) ⟨"y", "", 1⟩ List.mem_cons_self
    revert assigned
    decide +kernel

end Simulator

end MiniVerilog
