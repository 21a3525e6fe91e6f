import MiniVerilog.Module.Elaborate
import MiniVerilog.Proofs.Simulation.Journal

/-! # Which events wake a block

The always blocks of a step take turns, and a block is tested against what is logged before
its turn. In level mode it therefore runs exactly if the inputs or a block before it log an
event of a name it waits for, and an event of a later block is lost on it
(`MiniVerilog.Simulator.run_wakes`).
-/

namespace MiniVerilog

/-- What logs an event: the inputs, which are stimulus and continuous assignments, or the
always block with an index. -/
inductive Origin where
  | inputs
  | block (index : Nat)
  deriving DecidableEq, Repr

/-- The origin comes before the turn of the block with an index. -/
def Origin.Precedes : Origin → (index : Nat) → Prop
  | inputs, _ => True
  | block earlier, index => earlier < index

/-- An event of the name wakes the block in level mode. -/
def AlwaysBlock.Awaits (block : AlwaysBlock) (name : String) : Prop :=
  ∃ word ∈ block.sensitivityList, ClockEdge.ofWord? word = none ∧ (word = "*" ∨ word = name)

/-- No block assigns a name in the sensitivity list of a block before it. -/
def Module.WakesForward (module : Module) : Prop :=
  module.alwaysBlocks.Pairwise fun block later =>
    ∀ name ∈ block.sensitivityList, name ∉ StatementTree.targetsOfBody (module.trees later.body)

namespace Simulator

variable (simulator : Simulator) (state : SimulationState)

/-- What is staged in a step before the turn of a block. -/
def stagedBefore (index : Nat) : Staging :=
  (simulator.blocks.take index).foldl (simulator.runBlock state) (simulator.stageInputs state)

/-- The block with an index runs in the step after the state. -/
def executes (index : Nat) : Bool :=
  simulator.blocks[index]?.any fun block =>
    isTriggered state simulator.trigger (simulator.stagedBefore state index) block.1

/-- The events that an origin logs in the step after the state. -/
def eventsOf : Origin → List Event
  | .inputs => (simulator.stageInputs state).log
  | .block index =>
    (simulator.stagedBefore state (index + 1)).log.drop
      (simulator.stagedBefore state index).log.length

/-- Before the next turn the block of this turn has run or not. -/
theorem stagedBefore_succ {index : Nat} {block : AlwaysBlock × List StatementTree}
    (here : simulator.blocks[index]? = some block) :
    simulator.stagedBefore state (index + 1) =
      simulator.runBlock state (simulator.stagedBefore state index) block := by
  rw [stagedBefore, List.take_add_one, here, List.foldl_append]
  rfl

theorem stagedBefore_succ_of_none {index : Nat} (none : simulator.blocks[index]? = none) :
    simulator.stagedBefore state (index + 1) = simulator.stagedBefore state index := by
  rw [stagedBefore, List.take_add_one, none, Option.toList_none, List.append_nil]
  rfl

/-- After the turns of all blocks the step is over. -/
theorem stageStep_eq_stagedBefore :
    simulator.stageStep state = simulator.stagedBefore state simulator.blocks.length := by
  rw [stagedBefore, List.take_length]
  rfl

/-- A property that staging the written names keeps holds before every turn. -/
theorem stagedBefore_invariant {property : Staging → Prop}
    (kept : ∀ kind staging write, simulator.Writes write.1 → property staging →
      property (simulator.stage state kind staging write)) (start : property {}) (index : Nat) :
    property (simulator.stagedBefore state index) := by
  induction index with
  | zero => exact simulator.stageInputs_invariant state kept start
  | succ index ih =>
      cases here : simulator.blocks[index]? with
      | none =>
          rw [stagedBefore_succ_of_none _ _ here]
          exact ih
      | some block =>
          rw [stagedBefore_succ _ _ here]
          exact simulator.runBlock_invariant state kept block
            (fun _ => .block (List.mem_of_getElem? here)) ih

/-- A block adds events of the names it assigns. -/
theorem runBlock_log (staging : Staging) (block : AlwaysBlock × List StatementTree) :
    ∃ added, (simulator.runBlock state staging block).log = staging.log ++ added ∧
      ∀ event ∈ added, event.signal ∈ StatementTree.targetsOfBody block.2 := by
  let grown (after : Staging) : Prop := ∃ added, after.log = staging.log ++ added ∧
    ∀ event ∈ added, event.signal ∈ StatementTree.targetsOfBody block.2
  have start : grown staging := ⟨[], (List.append_nil _).symm, List.forall_mem_nil _⟩
  refine simulator.runBlock_invariant state ?_ block (fun _ assigned => assigned) start
  rintro kind after write assigned ⟨added, log, own⟩
  rcases simulator.stage_log state kind after write with same | one
  · exact ⟨added, same.trans log, own⟩
  · rw [log, List.append_assoc] at one
    refine ⟨_, one, ?_⟩
    intro event member
    rcases List.mem_append.mp member with old | new
    · exact own event old
    · rw [List.mem_singleton.mp new]
      exact assigned

/-- The log grows by the events of one block after the other. -/
theorem log_stagedBefore_succ (index : Nat) :
    (simulator.stagedBefore state (index + 1)).log =
      (simulator.stagedBefore state index).log ++ simulator.eventsOf state (.block index) := by
  rw [eventsOf]
  cases here : simulator.blocks[index]? with
  | none => rw [stagedBefore_succ_of_none _ _ here, List.drop_length, List.append_nil]
  | some block =>
      obtain ⟨added, log, -⟩ :=
        simulator.runBlock_log state (simulator.stagedBefore state index) block
      rw [stagedBefore_succ _ _ here, log, List.drop_left]

/-- A block logs only events of the names it assigns. -/
theorem signal_mem_targetsOfBody {index : Nat} {event : Event}
    (logged : event ∈ simulator.eventsOf state (.block index)) :
    ∃ block, simulator.blocks[index]? = some block ∧
      event.signal ∈ StatementTree.targetsOfBody block.2 := by
  rw [eventsOf] at logged
  cases here : simulator.blocks[index]? with
  | none =>
      rw [stagedBefore_succ_of_none _ _ here, List.drop_length] at logged
      cases logged
  | some block =>
      obtain ⟨added, log, own⟩ :=
        simulator.runBlock_log state (simulator.stagedBefore state index) block
      rw [stagedBefore_succ _ _ here, log, List.drop_left] at logged
      exact ⟨block, rfl, own event logged⟩

/-- Before the turn of a block the inputs and the blocks before it have logged their
events. -/
theorem mem_log_stagedBefore {index : Nat} {event : Event} :
    event ∈ (simulator.stagedBefore state index).log ↔
      ∃ origin : Origin, origin.Precedes index ∧ event ∈ simulator.eventsOf state origin := by
  induction index with
  | zero =>
      constructor
      · exact fun logged => ⟨.inputs, trivial, logged⟩
      · rintro ⟨origin, before, logged⟩
        cases origin with
        | inputs => exact logged
        | block earlier => exact absurd before (Nat.not_lt_zero _)
  | succ index ih =>
      rw [log_stagedBefore_succ, List.mem_append, ih]
      constructor
      · rintro (⟨origin, before, logged⟩ | logged)
        · refine ⟨origin, ?_, logged⟩
          cases origin with
          | inputs => trivial
          | block earlier => exact Nat.lt_succ_of_lt before
        · exact ⟨.block index, Nat.lt_succ_self index, logged⟩
      · rintro ⟨origin, before, logged⟩
        cases origin with
        | inputs => exact .inl ⟨.inputs, trivial, logged⟩
        | block earlier =>
            rcases Nat.lt_succ_iff_lt_or_eq.mp before with less | rfl
            · exact .inl ⟨.block earlier, less, logged⟩
            · exact .inr logged

/-- Every event of a step has an origin. -/
theorem mem_log_stageStep {event : Event} :
    event ∈ (simulator.stageStep state).log ↔
      ∃ origin : Origin, event ∈ simulator.eventsOf state origin := by
  rw [stageStep_eq_stagedBefore, mem_log_stagedBefore]
  constructor
  · exact fun ⟨origin, _, logged⟩ => ⟨origin, logged⟩
  · rintro ⟨origin, logged⟩
    refine ⟨origin, ?_, logged⟩
    cases origin with
    | inputs => trivial
    | block index =>
        obtain ⟨block, here, -⟩ := simulator.signal_mem_targetsOfBody state logged
        exact (List.getElem?_eq_some_iff.mp here).1

/-- A word of a sensitivity list sees an event of its name, and the star sees every event. -/
theorem changed_iff {staging : Staging} {word : String} :
    changed staging word = true ↔ ∃ event ∈ staging.log, word = "*" ∨ word = event.signal := by
  unfold changed
  by_cases all : word = "*"
  · rw [if_pos all, Bool.not_eq_true', List.isEmpty_eq_false_iff_exists_mem]
    simp only [all, true_or, and_true]
  · rw [if_neg all, List.any_eq_true]
    simp only [all, false_or, decide_eq_true_eq, eq_comm (a := word)]

/-- In level mode a block fires if something it waits for has been logged. -/
theorem isTriggered_level {staging : Staging} {block : AlwaysBlock} :
    isTriggered state .level staging block = true ↔
      ∃ event ∈ staging.log, block.Awaits event.signal := by
  rw [isTriggered, List.any_eq_true]
  constructor
  · rintro ⟨word, member, hit⟩
    obtain ⟨listed, noEdge⟩ := List.mem_filter.mp member
    obtain ⟨event, logged, same⟩ := changed_iff.mp hit
    exact ⟨event, logged, word, listed, Option.isNone_iff_eq_none.mp noEdge, same⟩
  · rintro ⟨event, logged, word, listed, noEdge, same⟩
    refine ⟨word, List.mem_filter.mpr ⟨listed, ?_⟩, changed_iff.mpr ⟨event, logged, same⟩⟩
    exact Option.isNone_iff_eq_none.mpr noEdge

/-- The block with an index runs exactly if the inputs or a block before it log an event that
it waits for. -/
theorem executes_iff (level : simulator.trigger = .level) {index : Nat}
    {block : AlwaysBlock × List StatementTree} (here : simulator.blocks[index]? = some block) :
    simulator.executes state index ↔
      ∃ origin : Origin, origin.Precedes index ∧
        ∃ event ∈ simulator.eventsOf state origin, block.1.Awaits event.signal := by
  rw [executes, here, Option.any_some, level, isTriggered_level]
  constructor
  · rintro ⟨event, logged, awaited⟩
    obtain ⟨origin, before, logged⟩ := (simulator.mem_log_stagedBefore state).mp logged
    exact ⟨origin, before, event, logged, awaited⟩
  · rintro ⟨origin, before, event, logged, awaited⟩
    exact ⟨event, (simulator.mem_log_stagedBefore state).mpr ⟨origin, before, logged⟩, awaited⟩

/-- No wake-up is lost: when anything but the block itself logs an event of a name in its
sensitivity list, the block runs in that step or in the next one. -/
def LosesNoWakeUp : Prop :=
  ∀ (time index : Nat) (block : AlwaysBlock × List StatementTree) (name : String),
    simulator.blocks[index]? = some block → name ∈ block.1.sensitivityList →
    ClockEdge.ofWord? name = none → ∀ origin : Origin, origin ≠ .block index →
    ∀ event ∈ simulator.eventsOf (simulator.run time simulator.initial) origin,
    event.signal = name →
      simulator.executes (simulator.run time simulator.initial) index ∨
        simulator.executes (simulator.run (time + 1) simulator.initial) index

/-- **Wake-ups in level mode.** A block runs in a step exactly if the inputs or a block before
it log an event that it waits for. No wake-up is lost if no block assigns a name that a block
before it waits for. -/
theorem run_wakes {module : Module} {config : SimulationConfig} {simulator : Simulator}
    (made : Simulator.make module config = .ok simulator) (level : config.trigger = .level) :
    (∀ (time index : Nat) (block : AlwaysBlock × List StatementTree),
      simulator.blocks[index]? = some block →
        (simulator.executes (simulator.run time simulator.initial) index ↔
          ∃ origin : Origin, origin.Precedes index ∧
            ∃ event ∈ simulator.eventsOf (simulator.run time simulator.initial) origin,
              block.1.Awaits event.signal)) ∧
    (module.WakesForward → simulator.LosesNoWakeUp) := by
  obtain ⟨-, trigger, -, -, blocks, -, -⟩ := madeFrom_of_make made
  have law (time index : Nat) (block : AlwaysBlock × List StatementTree)
      (here : simulator.blocks[index]? = some block) :=
    simulator.executes_iff (simulator.run time simulator.initial) (trigger.trans level) here
  refine ⟨law, ?_⟩
  intro forward time index block name here listed noEdge origin foreign event logged same
  apply Or.inl
  rw [law time index block here]
  refine ⟨origin, ?_, event, logged, name, listed, noEdge, .inr same.symm⟩
  cases origin with
  | inputs => trivial
  | block other =>
      -- A later block would assign the name, which the order of the blocks excludes.
      obtain ⟨writer, there, assigned⟩ := simulator.signal_mem_targetsOfBody _ logged
      rw [blocks, List.getElem?_map, Option.map_eq_some_iff] at here there
      obtain ⟨block, here, rfl⟩ := here
      obtain ⟨writer, there, rfl⟩ := there
      by_contra notBefore
      have different : other ≠ index := fun equal => foreign (equal ▸ rfl)
      have later : index < other :=
        Nat.lt_of_le_of_ne (Nat.not_lt.mp notBefore) different.symm
      obtain ⟨inside, rfl⟩ := List.getElem?_eq_some_iff.mp here
      obtain ⟨otherInside, rfl⟩ := List.getElem?_eq_some_iff.mp there
      exact List.pairwise_iff_getElem.mp forward index other inside otherInside later name listed
        (same ▸ assigned)

/-- Two blocks in the order in which they wake each other. -/
theorem run_wakes_forward :
    ∃ module simulator,
      Module.ofSource?
        "module m(input c, output a, b); always @(c) a = 1; always @(a) b = 1; endmodule" =
          some module ∧
      Simulator.make module { clocks := [⟨"c", 9⟩] } = .ok simulator ∧
      module.WakesForward ∧ simulator.LosesNoWakeUp := by
  let waker : AlwaysBlock := ⟨["c"], [0], 1⟩
  let woken : AlwaysBlock := ⟨["a"], [1], 1⟩
  let module : Module :=
    { name := "m"
      ports := [⟨"c", .input, 1, false, 1⟩, ⟨"a", .output, 1, false, 1⟩,
        ⟨"b", .output, 1, false, 1⟩]
      alwaysBlocks := [waker, woken]
      statements := ⟨#[.assign "a" "1" true 1, .assign "b" "1" true 1]⟩ }
  let simulator : Simulator :=
    ⟨module, .level, [⟨"c", 9⟩], [],
      [(waker, [.assign "a" "1" true 1]), (woken, [.assign "b" "1" true 1])]⟩
  have parsed :
      Module.ofSource?
        "module m(input c, output a, b); always @(c) a = 1; always @(a) b = 1; endmodule" =
          some module := by decide +kernel
  have made : Simulator.make module { clocks := [⟨"c", 9⟩] } = .ok simulator := by
    simp only [module, waker, woken, simulator]
    rfl
  have forward : module.WakesForward := by
    unfold Module.WakesForward
    decide +kernel
  exact ⟨module, simulator, parsed, made, forward, (run_wakes made rfl).2 forward⟩

/-- The same blocks the other way round: the event of `a` in step 0 comes after the turn of the
block that waits for it, which runs neither in that step nor in the next one. -/
theorem not_losesNoWakeUp_backward :
    ∃ module simulator,
      Module.ofSource?
        "module m(input c, output a, b); always @(a) b = 1; always @(c) a = 1; endmodule" =
          some module ∧
      Simulator.make module { clocks := [⟨"c", 9⟩] } = .ok simulator ∧
      ¬ simulator.LosesNoWakeUp := by
  let waker : AlwaysBlock := ⟨["c"], [1], 1⟩
  let woken : AlwaysBlock := ⟨["a"], [0], 1⟩
  let module : Module :=
    { name := "m"
      ports := [⟨"c", .input, 1, false, 1⟩, ⟨"a", .output, 1, false, 1⟩,
        ⟨"b", .output, 1, false, 1⟩]
      alwaysBlocks := [woken, waker]
      statements := ⟨#[.assign "b" "1" true 1, .assign "a" "1" true 1]⟩ }
  let simulator : Simulator :=
    ⟨module, .level, [⟨"c", 9⟩], [],
      [(woken, [.assign "b" "1" true 1]), (waker, [.assign "a" "1" true 1])]⟩
  have parsed :
      Module.ofSource?
        "module m(input c, output a, b); always @(a) b = 1; always @(c) a = 1; endmodule" =
          some module := by decide +kernel
  have made : Simulator.make module { clocks := [⟨"c", 9⟩] } = .ok simulator := by
    simp only [module, waker, woken, simulator]
    rfl
  refine ⟨module, simulator, parsed, made, fun lossless => ?_⟩
  have wakes := lossless 0 0 (woken, [.assign "b" "1" true 1]) "a" rfl List.mem_cons_self
    (by decide) (.block 1) (by decide) ⟨0, "a", 1, .change⟩ (by decide +kernel) rfl
  revert wakes
  decide +kernel

end Simulator

end MiniVerilog
