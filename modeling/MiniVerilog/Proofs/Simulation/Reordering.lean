import MiniVerilog.Module.Elaborate
import MiniVerilog.Proofs.Module.Widths
import MiniVerilog.Proofs.Simulation.Run
import MiniVerilog.Proofs.Simulation.Staging

/-! # The order of continuous assignments

Continuous assignments read the values of before the step, so those of distinct targets may be
listed in any order: the runs have the same values and the same waveform, and in every step the
same events, which come in another order (`MiniVerilog.Simulator.run_reorders`). The always
blocks of the step see that log, but no event control depends on its order.
-/

namespace MiniVerilog

/-- The same is staged, and the same is logged in some order. -/
structure Staging.Reorders (first second : Staging) : Prop where
  staged : first.staged = second.staged
  log : first.log.Perm second.log

/-- Two states are the same but for the order of the events of a step. -/
structure SimulationState.Reorders (first second : SimulationState) : Prop where
  time : first.time = second.time
  values : first.values = second.values
  previous : first.previous = second.previous
  waveform : first.waveform = second.waveform
  events : ∀ time, (first.events.toList.filter fun event => event.time = time).Perm
    (second.events.toList.filter fun event => event.time = time)

namespace Staging.Reorders

variable {first second third : Staging}

theorem refl (staging : Staging) : Reorders staging staging :=
  ⟨rfl, .refl _⟩

theorem trans (agree : Reorders first second) (further : Reorders second third) :
    Reorders first third :=
  ⟨agree.staged.trans further.staged, agree.log.trans further.log⟩

end Staging.Reorders

namespace SimulationState.Reorders

variable {first second : SimulationState}

theorem refl (state : SimulationState) : Reorders state state :=
  ⟨rfl, rfl, rfl, rfl, fun _ => .refl _⟩

theorem pending_eq (agree : Reorders first second) {left right : Staging}
    (same : left.Reorders right) (name : String) :
    first.pending left name = second.pending right name := by
  rw [pending, pending, same.staged, agree.values]

/-- Commits of what is the same but for its order are the same but for the order of events. -/
theorem commit (agree : Reorders first second) {left right : Staging}
    (same : left.Reorders right) : Reorders (first.commit left) (second.commit right) := by
  have values : (first.commit left).values = (second.commit right).values := by
    change first.values.overlay left.staged = second.values.overlay right.staged
    rw [agree.values, same.staged]
  refine ⟨congrArg (· + 1) agree.time, values, agree.values, ?_, fun time => ?_⟩
  · change first.waveform.sample (first.time + 1) (first.commit left).values.get? =
      second.waveform.sample (second.time + 1) (second.commit right).values.get?
    rw [agree.waveform, agree.time, values]
  · change ((first.events ++ left.log).toList.filter _).Perm
      ((second.events ++ right.log).toList.filter _)
    rw [Array.toList_appendList, Array.toList_appendList, List.filter_append, List.filter_append]
    exact (agree.events time).append (same.log.filter _)

end SimulationState.Reorders

namespace Simulator

variable (simulator : Simulator) {first second : SimulationState}

/-- **Staging a write keeps the states reorderings of one another**: it is logged in both or in
none. -/
theorem stage_reorders (states : first.Reorders second) (kind : EventKind) {left right : Staging}
    (agree : left.Reorders right) (write : String × Value) :
    (simulator.stage first kind left write).Reorders (simulator.stage second kind right write) := by
  unfold stage
  simp only
  rw [states.pending_eq agree, states.time, agree.staged]
  split
  · exact agree
  · exact ⟨rfl, agree.log.append_right _⟩

/-- The same writes keep what is the same but for its order. -/
theorem stageAll_reorders (states : first.Reorders second) (kind : EventKind)
    {left right : Staging} (agree : left.Reorders right) (writes : List (String × Value)) :
    (simulator.stageAll first kind left writes).Reorders
      (simulator.stageAll second kind right writes) :=
  List.foldl_rel agree fun write _ _ _ agree => simulator.stage_reorders states kind agree write

/-- Writes to two names commute, but for the order of their events. -/
theorem stage_comm (state : SimulationState) (kind : EventKind) (staging : Staging)
    {write other : String × Value} (different : write.1 ≠ other.1) :
    (simulator.stage state kind (simulator.stage state kind staging write) other).Reorders
      (simulator.stage state kind (simulator.stage state kind staging other) write) := by
  have otherPending := simulator.pending_stage state kind staging write other.1
  have writePending := simulator.pending_stage state kind staging other write.1
  rw [if_neg different] at otherPending
  rw [if_neg different.symm] at writePending
  rw [stage, otherPending, stage.eq_1 simulator state kind (simulator.stage _ _ _ other),
    writePending]
  simp only [stage]
  split_ifs
  · exact .refl _
  · exact .refl _
  · exact .refl _
  · refine ⟨NameMap.insert_comm _ different _ _, ?_⟩
    rw [List.append_assoc, List.append_assoc]
    exact (List.Perm.swap _ _ _).append_left staging.log

/-- A write may come before the writes to other names. -/
theorem stageAll_move (state : SimulationState) (kind : EventKind) {write : String × Value}
    {others : List (String × Value)} (different : ∀ other ∈ others, other.1 ≠ write.1)
    (staging : Staging) :
    (simulator.stageAll state kind staging (write :: others)).Reorders
      (simulator.stageAll state kind staging (others ++ [write])) := by
  induction others generalizing staging with
  | nil => exact .refl _
  | cons other others ih =>
      obtain ⟨here, later⟩ := List.forall_mem_cons.mp different
      have swapped := simulator.stageAll_reorders (.refl state) kind
        (simulator.stage_comm state kind staging here.symm) others
      exact swapped.trans (ih later (simulator.stage state kind staging other))

/-- **Only the order of the writes to one name matters.** -/
theorem stageAll_reorder (state : SimulationState) (kind : EventKind)
    {writes others : List (String × Value)}
    (same : ∀ name, writes.filter (·.1 = name) = others.filter (·.1 = name)) (staging : Staging) :
    (simulator.stageAll state kind staging writes).Reorders
      (simulator.stageAll state kind staging others) := by
  induction writes generalizing others staging with
  | nil =>
      cases others with
      | nil => exact .refl staging
      | cons other others =>
          have absent := same other.1
          rw [List.filter_cons, if_pos (decide_eq_true rfl)] at absent
          cases absent
  | cons write writes ih =>
      have first := same write.1
      rw [List.filter_cons, if_pos (decide_eq_true rfl)] at first
      obtain ⟨before, after, rfl, none, -, rest⟩ := List.filter_eq_cons_iff.mp first.symm
      have remaining : ∀ name,
          writes.filter (·.1 = name) = (before ++ after).filter (·.1 = name) := by
        intro name
        by_cases here : write.1 = name
        · subst here
          rw [List.filter_append, List.filter_eq_nil_iff.mpr none, List.nil_append, rest]
        · have others := same name
          have skipped : ¬ decide (write.1 = name) = true :=
            fun equal => here (of_decide_eq_true equal)
          rwa [List.filter_cons, if_neg skipped, List.filter_append, List.filter_cons,
            if_neg skipped, ← List.filter_append] at others
      have different : ∀ other ∈ before, other.1 ≠ write.1 :=
        fun other member equal => none other member (decide_eq_true equal)
      -- The first write moves to the front of the others, past writes to other names only.
      have moved := simulator.stageAll_reorders (.refl state) kind
        (simulator.stageAll_move state kind different staging) after
      simp only [stageAll, ← List.foldl_append, List.append_assoc, List.cons_append,
        List.nil_append] at moved
      exact (ih remaining (simulator.stage state kind staging write)).trans moved

/-- Writes to distinct names may come in any order. -/
theorem stageAll_perm (state : SimulationState) (kind : EventKind)
    {writes others : List (String × Value)} (perm : writes.Perm others)
    (distinct : (writes.map Prod.fst).Nodup) (staging : Staging) :
    (simulator.stageAll state kind staging writes).Reorders
      (simulator.stageAll state kind staging others) := by
  apply simulator.stageAll_reorder
  intro name
  have otherDistinct := (perm.map Prod.fst).nodup_iff.mp distinct
  by_cases written : ∃ write ∈ writes, write.1 = name
  · obtain ⟨write, member, rfl⟩ := written
    rw [NameMap.filter_eq_singleton distinct member,
      NameMap.filter_eq_singleton otherDistinct (perm.mem_iff.mp member)]
  · have absent : ∀ write ∈ writes, ¬ decide (write.1 = name) = true :=
      fun write member same => written ⟨write, member, of_decide_eq_true same⟩
    rw [List.filter_eq_nil_iff.mpr absent, List.filter_eq_nil_iff.mpr fun write member =>
      absent write (perm.mem_iff.mpr member)]

/-- A block is triggered in both or in none, since it only looks for an event and not for its
place. -/
theorem isTriggered_reorders (states : first.Reorders second) {left right : Staging}
    (agree : left.Reorders right) (trigger : TriggerMode) (block : AlwaysBlock) :
    isTriggered first trigger left block = isTriggered second trigger right block := by
  cases trigger with
  | level =>
      have same : changed left = changed right := by
        funext word
        rw [changed, changed, agree.log.isEmpty_eq, agree.log.any_eq]
      rw [isTriggered, isTriggered, same]
  | edge =>
      have same : happened first left = happened second right := by
        funext item
        rw [happened, happened, agree.staged, states.values, states.pending_eq agree]
      rw [isTriggered, isTriggered, same]

theorem lookup_reorders (states : first.Reorders second) :
    simulator.lookup first = simulator.lookup second := by
  funext name
  rw [lookup, lookup, states.values]

/-- A block runs in both or in none and stages the same. -/
theorem runBlock_reorders (states : first.Reorders second) {left right : Staging}
    (agree : left.Reorders right) (block : AlwaysBlock × List StatementTree) :
    (simulator.runBlock first left block).Reorders (simulator.runBlock second right block) := by
  rw [runBlock, runBlock, isTriggered_reorders states agree, blockWrites, blockWrites,
    simulator.lookup_reorders states]
  split
  · exact simulator.stageAll_reorders states .change agree _
  · exact agree

/-- Blocks that take turns stage the same in both. -/
theorem foldl_runBlock_reorders (states : first.Reorders second)
    (blocks : List (AlwaysBlock × List StatementTree)) {left right : Staging}
    (agree : left.Reorders right) :
    (blocks.foldl (simulator.runBlock first) left).Reorders
      (blocks.foldl (simulator.runBlock second) right) :=
  List.foldl_rel agree fun block _ _ _ agree => simulator.runBlock_reorders states agree block

/-- Clocks toggle in the same way. -/
theorem toggles_reorders (states : first.Reorders second) :
    simulator.toggles first = simulator.toggles second := by
  rw [toggles, toggles, states.time]
  apply List.map_congr_left
  intro clock _
  rw [states.pending_eq (.refl {})]

theorem currentDrives_reorders (states : first.Reorders second) :
    simulator.currentDrives first = simulator.currentDrives second := by
  rw [currentDrives, currentDrives, states.time]

theorem assignedValues_reorders (states : first.Reorders second) :
    simulator.assignedValues first = simulator.assignedValues second := by
  rw [assignedValues, assignedValues, simulator.lookup_reorders states]

/-- The stimulus of a step is the same. -/
theorem stimulus_reorders (states : first.Reorders second) :
    (simulator.stageAll first .change (simulator.stageAll first .edge {}
        (simulator.toggles first)) (simulator.currentDrives first)).Reorders
      (simulator.stageAll second .change (simulator.stageAll second .edge {}
        (simulator.toggles second)) (simulator.currentDrives second)) := by
  rw [← simulator.toggles_reorders states, ← simulator.currentDrives_reorders states]
  exact simulator.stageAll_reorders states .change
    (simulator.stageAll_reorders states .edge (.refl {}) _) _

/-- If two simulators take steps that are the same but for the order of events, so are their
runs. -/
theorem run_reorders_of_step {other : Simulator}
    (step : ∀ {first second : SimulationState}, first.Reorders second →
      (other.step first).Reorders (simulator.step second))
    (steps : Nat) (states : first.Reorders second) :
    (other.run steps first).Reorders (simulator.run steps second) := by
  induction steps with
  | zero => exact states
  | succ steps ih =>
      rw [run_succ, run_succ]
      exact step ih

/-- The simulator with other continuous assignments in its module. -/
def withAssigns (simulator : Simulator) (assigns : List Assign) : Simulator :=
  { simulator with module := { simulator.module with assigns } }

section Run

variable {simulator} {assigns : List Assign} (perm : assigns.Perm simulator.module.assigns)
  (distinct : (simulator.module.assigns.map (·.target)).Nodup)

include perm distinct

/-- The inputs of a step are the same but for the order of their events. -/
theorem stageInputs_reorders (states : first.Reorders second) :
    ((simulator.withAssigns assigns).stageInputs first).Reorders
      (simulator.stageInputs second) := by
  have assigned : ((simulator.withAssigns assigns).assignedValues first).Perm
      (simulator.assignedValues second) := by
    rw [← simulator.assignedValues_reorders states]
    exact (perm.filter _).map _
  have names : (((simulator.withAssigns assigns).assignedValues first).map Prod.fst).Nodup := by
    rw [assignedValues, List.map_map]
    exact ((perm.map _).nodup_iff.mpr distinct).sublist (List.filter_sublist.map _)
  rw [stageInputs, stageInputs]
  exact (simulator.stageAll_perm first .change assigned names _).trans
    (simulator.stageAll_reorders states .change (simulator.stimulus_reorders states) _)

/-- **A step changes nothing but the order of its events.** -/
theorem step_reorders (states : first.Reorders second) :
    ((simulator.withAssigns assigns).step first).Reorders (simulator.step second) :=
  states.commit (simulator.foldl_runBlock_reorders states simulator.blocks
    (stageInputs_reorders perm distinct states))

end Run

end Simulator

namespace Module

variable {module : Module} {assigns : List Assign}

/-- Reordering the assignments of a module keeps its tracked names. -/
theorem mem_trackedNames_withAssigns (perm : assigns.Perm module.assigns) {name : String} :
    name ∈ { module with assigns }.trackedNames ↔ name ∈ module.trackedNames := by
  rw [mem_trackedNames_iff_ne, mem_trackedNames_iff_ne, DeclaresOrAssigns, DeclaresOrAssigns,
    mem_ownNames, mem_ownNames, (perm.map (·.target)).mem_iff]
  rfl

/-- The initial values depend on what is tracked and on what each name starts with. -/
theorem initialValues_congr {other : Module}
    (tracked : ∀ name, name ∈ other.trackedNames ↔ name ∈ module.trackedNames)
    (start : other.initialValue = module.initialValue) :
    other.initialValues = module.initialValues := by
  apply NameMap.ext_get?
  intro name
  rw [initialValues, initialValues, NameMap.get?_ofList_map, NameMap.get?_ofList_map, start]
  simp only [tracked]

theorem initialValues_withAssigns (perm : assigns.Perm module.assigns) :
    { module with assigns }.initialValues = module.initialValues :=
  initialValues_congr (fun _ => mem_trackedNames_withAssigns perm) rfl

end Module

namespace Simulator

/-- A stimulus for a module is one for the module with its continuous assignments in another
order. -/
theorem make_withAssigns {module : Module} {assigns : List Assign}
    (perm : assigns.Perm module.assigns) {config : SimulationConfig} {simulator : Simulator}
    (made : Simulator.make module config = .ok simulator) :
    Simulator.make { module with assigns } config = .ok (simulator.withAssigns assigns) := by
  obtain ⟨rfl, trigger, clocksEq, drivesEq, blocks, clocks, drives⟩ := madeFrom_of_make made
  have known : ∀ {name : String}, name ∈ simulator.module.trackedNames →
      name ∈ { simulator.module with assigns }.trackedNames :=
    (Module.mem_trackedNames_withAssigns perm).mpr
  rw [make_eq_ok (fun clock member => (clocks clock member).imp_left known)
    (fun drive member => known (drives drive member))]
  rw [withAssigns, trigger, clocksEq, drivesEq, blocks]
  rfl

/-- **The order of continuous assignments is irrelevant.** With the assignments of distinct
targets in another order a run has the same values and the same waveform, and the events of
every time are the same in some order. -/
theorem run_reorders {module : Module} {assigns : List Assign}
    (perm : assigns.Perm module.assigns) (distinct : (module.assigns.map (·.target)).Nodup)
    {config : SimulationConfig} {simulator : Simulator}
    (made : Simulator.make module config = .ok simulator) :
    ∃ other, Simulator.make { module with assigns } config = .ok other ∧
      ∀ steps, (other.run steps other.initial).Reorders
        (simulator.run steps simulator.initial) := by
  refine ⟨simulator.withAssigns assigns, make_withAssigns perm made, fun steps => ?_⟩
  obtain ⟨rfl, -, -, -, -, -, -⟩ := madeFrom_of_make made
  have initial : (simulator.withAssigns assigns).initial = simulator.initial := by
    rw [Simulator.initial, Simulator.initial, withAssigns, Module.initialValues_withAssigns perm]
  rw [initial]
  exact simulator.run_reorders_of_step (step_reorders perm distinct) steps (.refl simulator.initial)

/-- Two assignments that change in the same step, with a block that waits for both. Their events
come in the order of the assignments. -/
theorem run_reorders_pair :
    ∃ module simulator other,
      Module.ofSource?
        "module t(input c, output a, b, output reg r); assign a = c; assign b = ~c;
         always @(a or b) r <= b; endmodule" = some module ∧
      Simulator.make module { drives := [⟨0, "c", 1⟩] } = .ok simulator ∧
      Simulator.make { module with assigns := module.assigns.reverse }
        { drives := [⟨0, "c", 1⟩] } = .ok other ∧
      (simulator.run 2 simulator.initial).values.get? "r" = some 1 ∧
      (other.run 2 other.initial).events ≠ (simulator.run 2 simulator.initial).events ∧
      (other.run 2 other.initial).Reorders (simulator.run 2 simulator.initial) := by
  let module : Module :=
    { name := "t"
      ports := [⟨"c", .input, 1, false, 1⟩, ⟨"a", .output, 1, false, 1⟩,
        ⟨"b", .output, 1, false, 1⟩, ⟨"r", .output, 1, false, 1⟩]
      signals := [⟨"r", .reg, 1, false, none, 1⟩]
      assigns := [⟨"a", "c", 1⟩, ⟨"b", "~ c", 1⟩]
      alwaysBlocks := [⟨["a", "b"], [0], 2⟩]
      statements := ⟨#[.assign "r" "b" false 2]⟩ }
  have parsed :
      Module.ofSource?
        "module t(input c, output a, b, output reg r); assign a = c; assign b = ~c;
         always @(a or b) r <= b; endmodule" = some module := by decide +kernel
  have made : Simulator.make module { drives := [⟨0, "c", 1⟩] } = .ok _ :=
    make_eq_ok (by decide +kernel) (by decide +kernel)
  have otherMade : Simulator.make { module with assigns := module.assigns.reverse }
      { drives := [⟨0, "c", 1⟩] } = .ok _ :=
    make_eq_ok (by decide +kernel) (by decide +kernel)
  obtain ⟨other, reordered, agree⟩ :=
    run_reorders (List.reverse_perm module.assigns) (by decide +kernel) made
  obtain rfl := Except.ok.inj (reordered.symm.trans otherMade)
  refine ⟨module, _, _, parsed, made, otherMade, ?_, ?_, agree 2⟩
  · decide +kernel
  · decide +kernel

end Simulator

end MiniVerilog
