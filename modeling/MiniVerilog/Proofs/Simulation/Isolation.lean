import MiniVerilog.Module.Elaborate
import MiniVerilog.Proofs.Simulation.Reading
import MiniVerilog.Proofs.Simulation.Staging
import MiniVerilog.Proofs.Simulation.Run

/-! # Names that nothing reads

Two runs of a module whose stimulus differs in the drives of one name only, and in which
nothing reads that name, tell the same story of all other names: the same values, the same
traces, and the same events in the same order (`MiniVerilog.Simulator.run_isolates`). The
relation that a step keeps is `MiniVerilog.SimulationState.AgreesExcept`.
-/

namespace MiniVerilog

/-- Nothing in the module reads the name: it is no word of an expression, no event control
waits for it, and none waits for every signal. -/
structure Module.LeavesUnread (module : Module) (name : String) : Prop where
  assigns : ∀ assign ∈ module.assigns, name ∉ Text.wordsOf assign.expression
  bodies : ∀ block ∈ module.alwaysBlocks,
    name ∉ StatementTree.readsOfBody (module.trees block.body)
  controls : ∀ block ∈ module.alwaysBlocks, name ∉ block.sensitivityList
  explicit : ∀ block ∈ module.alwaysBlocks, "*" ∉ block.sensitivityList

/-- The stimulus of two configurations differs in the drives of one name only. -/
structure SimulationConfig.AgreesExcept (name : String) (first second : SimulationConfig) :
    Prop where
  trigger : first.trigger = second.trigger
  clocks : first.clocks = second.clocks
  drives : first.drives.filter (·.signal ≠ name) = second.drives.filter (·.signal ≠ name)

/-- The events of all names but one. -/
def Event.without (name : String) (log : List Event) : List Event :=
  log.filter (·.signal ≠ name)

/-- The writes to all names but one. -/
def writesWithout (name : String) (writes : List (String × Value)) : List (String × Value) :=
  writes.filter (·.1 ≠ name)

/-- The same is staged for all names but one. -/
structure Staging.AgreesExcept (name : String) (first second : Staging) : Prop where
  staged : ∀ other, other ≠ name → first.staged.get? other = second.staged.get? other
  log : Event.without name first.log = Event.without name second.log

/-- Two states have the same history but for one name. -/
structure SimulationState.AgreesExcept (name : String) (first second : SimulationState) :
    Prop where
  time : first.time = second.time
  values : ∀ other, other ≠ name → first.values.get? other = second.values.get? other
  previous : ∀ other, other ≠ name → first.previous.get? other = second.previous.get? other
  events : Event.without name first.events.toList = Event.without name second.events.toList
  times : first.waveform.times = second.waveform.times
  traces : ∀ other, other ≠ name →
    first.waveform.signals.get? other = second.waveform.signals.get? other

variable {name : String}

theorem Event.without_append (name : String) (first second : List Event) :
    without name (first ++ second) = without name first ++ without name second :=
  List.filter_append first second

theorem Event.without_singleton_self (time : Nat) (value : Value) (kind : EventKind) :
    without name [⟨time, name, value, kind⟩] = [] := by
  rw [without, List.filter_eq_nil_iff]
  simp only [List.forall_mem_singleton, ne_eq, not_true_eq_false, decide_false,
    Bool.false_eq_true, not_false_eq_true]

theorem Event.mem_without {event : Event} {log : List Event} :
    event ∈ without name log ↔ event ∈ log ∧ event.signal ≠ name := by
  rw [without, List.mem_filter, decide_eq_true_eq]

namespace Staging.AgreesExcept

variable {first second third : Staging}

theorem refl (name : String) (staging : Staging) : AgreesExcept name staging staging :=
  ⟨fun _ _ => rfl, rfl⟩

theorem symm (agree : AgreesExcept name first second) : AgreesExcept name second first :=
  ⟨fun other different => (agree.staged other different).symm, agree.log.symm⟩

theorem trans (agree : AgreesExcept name first second)
    (further : AgreesExcept name second third) : AgreesExcept name first third :=
  ⟨fun other different => (agree.staged other different).trans (further.staged other different),
    agree.log.trans further.log⟩

end Staging.AgreesExcept

namespace SimulationState.AgreesExcept

variable {first second : SimulationState}

theorem refl (name : String) (state : SimulationState) : AgreesExcept name state state :=
  ⟨rfl, fun _ _ => rfl, fun _ _ => rfl, rfl, rfl, fun _ _ => rfl⟩

theorem pending_eq (agree : AgreesExcept name first second) {left right : Staging}
    (same : Staging.AgreesExcept name left right) {other : String} (different : other ≠ name) :
    first.pending left other = second.pending right other := by
  rw [pending, pending, same.staged other different, agree.values other different]

/-- Commits of what agrees agree. -/
theorem commit (agree : AgreesExcept name first second) {left right : Staging}
    (same : Staging.AgreesExcept name left right) :
    AgreesExcept name (first.commit left) (second.commit right) := by
  have values (other : String) (different : other ≠ name) :
      (first.values.overlay left.staged).get? other =
        (second.values.overlay right.staged).get? other := by
    rw [NameMap.get?_overlay, NameMap.get?_overlay, same.staged other different,
      agree.values other different]
  constructor
  · exact congrArg (· + 1) agree.time
  · exact values
  · exact agree.values
  · change Event.without name (first.events ++ left.log).toList =
      Event.without name (second.events ++ right.log).toList
    rw [Array.toList_appendList, Array.toList_appendList, Event.without_append,
      Event.without_append, agree.events, same.log]
  · change first.waveform.times.push (first.time + 1) = second.waveform.times.push (second.time + 1)
    rw [agree.times, agree.time]
  · intro other different
    change (NameMap.mapWithName _ first.waveform.signals).get? other =
      (NameMap.mapWithName _ second.waveform.signals).get? other
    rw [NameMap.get?_mapWithName, NameMap.get?_mapWithName, agree.traces other different,
      values other different, agree.time]

end SimulationState.AgreesExcept

namespace Simulator

variable (simulator : Simulator) {first second : SimulationState}

/-- Staging a value of the name touches no other name. -/
theorem stage_agreesExcept_self (state : SimulationState) (kind : EventKind) (staging : Staging)
    {write : String × Value} (own : write.1 = name) :
    Staging.AgreesExcept name (simulator.stage state kind staging write) staging := by
  obtain ⟨target, value⟩ := write
  obtain rfl : target = name := own
  by_cases same : simulator.module.mask target value = state.pending staging target
  · rw [stage, if_pos same]
    exact .refl target staging
  · rw [stage, if_neg same]
    refine ⟨fun other different => ?_, ?_⟩
    · rw [NameMap.get?_insert, if_neg different.symm]
    · rw [Event.without_append, Event.without_singleton_self, List.append_nil]

/-- **Staging a write keeps the agreement.** A write to the name itself may be logged on one side
only, which is left out. -/
theorem stage_agreesExcept (states : SimulationState.AgreesExcept name first second)
    (kind : EventKind) {left right : Staging} (agree : Staging.AgreesExcept name left right)
    (write : String × Value) :
    Staging.AgreesExcept name (simulator.stage first kind left write)
      (simulator.stage second kind right write) := by
  by_cases own : write.1 = name
  · exact (simulator.stage_agreesExcept_self first kind left own).trans
      (agree.trans (simulator.stage_agreesExcept_self second kind right own).symm)
  · unfold stage
    simp only
    rw [states.pending_eq agree own, states.time]
    split
    · exact agree
    · refine ⟨fun other different => ?_, ?_⟩
      · rw [NameMap.get?_insert, NameMap.get?_insert, agree.staged other different]
      · rw [Event.without_append, Event.without_append, agree.log]

/-- The writes to the name may as well be left out. -/
theorem stageAll_agreesExcept_without (state : SimulationState) (kind : EventKind)
    (staging : Staging) (writes : List (String × Value)) :
    Staging.AgreesExcept name (simulator.stageAll state kind staging writes)
      (simulator.stageAll state kind staging (writesWithout name writes)) := by
  have general : ∀ left right : Staging, Staging.AgreesExcept name left right →
      Staging.AgreesExcept name (simulator.stageAll state kind left writes)
        (simulator.stageAll state kind right (writesWithout name writes)) := by
    induction writes with
    | nil => exact fun _ _ agree => agree
    | cons write writes ih =>
        intro left right agree
        by_cases own : write.1 = name
        · rw [writesWithout, List.filter_cons_of_neg (by simpa only [ne_eq, decide_eq_true_eq,
            not_not] using own)]
          exact ih _ _ ((simulator.stage_agreesExcept_self state kind left own).trans agree)
        · rw [writesWithout, List.filter_cons_of_pos (by simpa only [ne_eq, decide_eq_true_eq]
            using own)]
          exact ih _ _ (simulator.stage_agreesExcept (.refl name state) kind agree write)
  exact general staging staging (.refl name staging)

/-- Staging the same writes to all other names keeps the agreement. -/
theorem stageAll_agreesExcept (states : SimulationState.AgreesExcept name first second)
    (kind : EventKind) {left right : Staging} (agree : Staging.AgreesExcept name left right)
    {writes others : List (String × Value)}
    (same : writesWithout name writes = writesWithout name others) :
    Staging.AgreesExcept name (simulator.stageAll first kind left writes)
      (simulator.stageAll second kind right others) := by
  have shared : Staging.AgreesExcept name
      (simulator.stageAll first kind left (writesWithout name others))
      (simulator.stageAll second kind right (writesWithout name others)) :=
    List.foldl_rel agree fun write _ _ _ agree =>
      simulator.stage_agreesExcept states kind agree write
  have before : Staging.AgreesExcept name (simulator.stageAll first kind left writes)
      (simulator.stageAll first kind left (writesWithout name others)) :=
    same ▸ simulator.stageAll_agreesExcept_without first kind left writes
  have after : Staging.AgreesExcept name (simulator.stageAll second kind right others)
      (simulator.stageAll second kind right (writesWithout name others)) :=
    simulator.stageAll_agreesExcept_without second kind right others
  exact before.trans (shared.trans after.symm)

/-- Whether another name has changed is the same. A word for every signal is excluded, as it sees
the name as well. -/
theorem changed_agreesExcept {left right : Staging} (agree : Staging.AgreesExcept name left right)
    {word : String} (other : word ≠ name) (explicit : word ≠ "*") :
    changed left word = changed right word := by
  have told (staging : Staging) : changed staging word = true ↔
      ∃ event ∈ Event.without name staging.log, event.signal = word := by
    rw [changed, if_neg explicit, List.any_eq_true]
    simp only [decide_eq_true_eq, Event.mem_without]
    constructor
    · rintro ⟨event, logged, rfl⟩
      exact ⟨event, ⟨logged, other⟩, rfl⟩
    · rintro ⟨event, ⟨logged, -⟩, same⟩
      exact ⟨event, logged, same⟩
  rw [Bool.eq_iff_iff, told, told, agree.log]

/-- Whether an edge of another name has happened is the same. -/
theorem happened_agreesExcept (states : SimulationState.AgreesExcept name first second)
    {left right : Staging} (agree : Staging.AgreesExcept name left right)
    {item : SensitivityItem} (other : item.signal ≠ name) (explicit : item.signal ≠ "*") :
    happened first left item = happened second right item := by
  rw [happened, happened, if_neg explicit, if_neg explicit, states.values _ other,
    states.pending_eq agree other]

/-- The event control of a block that does not wait for the name fires alike. -/
theorem isTriggered_agreesExcept (states : SimulationState.AgreesExcept name first second)
    {left right : Staging} (agree : Staging.AgreesExcept name left right) (trigger : TriggerMode)
    {block : AlwaysBlock} (control : name ∉ block.sensitivityList)
    (explicit : "*" ∉ block.sensitivityList) :
    isTriggered first trigger left block = isTriggered second trigger right block := by
  have differs {word : String} (listed : word ∈ block.sensitivityList) :
      word ≠ name ∧ word ≠ "*" :=
    ⟨fun same => control (same ▸ listed), fun same => explicit (same ▸ listed)⟩
  rw [Bool.eq_iff_iff]
  cases trigger with
  | level =>
      rw [isTriggered, isTriggered, List.any_eq_true, List.any_eq_true]
      refine exists_congr fun word => and_congr_right fun member => ?_
      obtain ⟨other, noStar⟩ := differs (List.mem_filter.mp member).1
      rw [changed_agreesExcept agree other noStar]
  | edge =>
      rw [isTriggered, isTriggered, List.any_eq_true, List.any_eq_true]
      refine exists_congr fun item => and_congr_right fun member => ?_
      obtain ⟨other, noStar⟩ := differs (SensitivityItem.signal_mem_of_mem_ofWords member).1
      rw [happened_agreesExcept states agree other noStar]

/-- The words of an expression have the same values if the name is not among them. -/
theorem lookup_agreesExcept (states : SimulationState.AgreesExcept name first second)
    {words : List String} (unread : name ∉ words) :
    ∀ word ∈ words, simulator.lookup first word = simulator.lookup second word := by
  intro word inside
  rw [lookup, lookup, states.values word fun same => unread (same ▸ inside)]

/-- A body that does not read the name writes the same. -/
theorem blockWrites_agreesExcept (states : SimulationState.AgreesExcept name first second)
    {body : List StatementTree} (unread : name ∉ StatementTree.readsOfBody body) :
    simulator.blockWrites first body = simulator.blockWrites second body := by
  rw [blockWrites, blockWrites,
    StatementTree.runBody_congr _ _ _ (simulator.lookup_agreesExcept states unread)]

/-- Continuous assignments that do not read the name have the same values. -/
theorem assignedValues_agreesExcept (states : SimulationState.AgreesExcept name first second)
    (unread : ∀ assign ∈ simulator.module.assigns, name ∉ Text.wordsOf assign.expression) :
    simulator.assignedValues first = simulator.assignedValues second := by
  apply List.map_congr_left
  intro assign member
  rw [Expression.evaluate_congr
    (simulator.lookup_agreesExcept states (unread assign (List.mem_filter.mp member).1))]

/-- The clocks of the other names toggle alike. -/
theorem toggles_agreesExcept (states : SimulationState.AgreesExcept name first second) :
    writesWithout name (simulator.toggles first) =
      writesWithout name (simulator.toggles second) := by
  rw [writesWithout, writesWithout, toggles, toggles, states.time, List.filter_map,
    List.filter_map]
  apply List.map_congr_left
  intro clock member
  have other : clock.signal ≠ name := of_decide_eq_true (List.mem_filter.mp member).2
  rw [states.pending_eq (.refl name {}) other]

/-- The drives of the moment are the same but for those of the name. -/
theorem currentDrives_agreesExcept (states : SimulationState.AgreesExcept name first second)
    {drives : List Drive}
    (same : simulator.drives.filter (·.signal ≠ name) = drives.filter (·.signal ≠ name)) :
    writesWithout name (simulator.currentDrives first) =
      writesWithout name ({ simulator with drives }.currentDrives second) := by
  have law (drives : List Drive) (time : Nat) :
      writesWithout name ((drives.filter fun drive => drive.time = time).map fun drive =>
        (drive.signal, drive.value)) =
      ((drives.filter (·.signal ≠ name)).filter fun drive => drive.time = time).map fun drive =>
        (drive.signal, drive.value) := by
    rw [writesWithout, List.filter_map, List.filter_comm]
    rfl
  rw [currentDrives, currentDrives, law, law, same, states.time]

/-- No assignment and no block of the simulator reads the name. -/
structure LeavesUnread (simulator : Simulator) (name : String) : Prop where
  assigns : ∀ assign ∈ simulator.module.assigns, name ∉ Text.wordsOf assign.expression
  bodies : ∀ block ∈ simulator.blocks, name ∉ StatementTree.readsOfBody block.2
  controls : ∀ block ∈ simulator.blocks, name ∉ block.1.sensitivityList
  explicit : ∀ block ∈ simulator.blocks, "*" ∉ block.1.sensitivityList

section Run

variable {simulator} (unread : simulator.LeavesUnread name) {drives : List Drive}
  (same : simulator.drives.filter (·.signal ≠ name) = drives.filter (·.signal ≠ name))

include unread

/-- **A block runs in both or in none and stages the same**, as it neither waits for the name nor
reads it. -/
theorem runBlock_agreesExcept (states : SimulationState.AgreesExcept name first second)
    {left right : Staging} (agree : Staging.AgreesExcept name left right)
    {block : AlwaysBlock × List StatementTree} (member : block ∈ simulator.blocks) :
    Staging.AgreesExcept name (simulator.runBlock first left block)
      (simulator.runBlock second right block) := by
  rw [runBlock, runBlock, isTriggered_agreesExcept states agree simulator.trigger
      (unread.controls block member) (unread.explicit block member),
    simulator.blockWrites_agreesExcept states (unread.bodies block member)]
  split
  · exact simulator.stageAll_agreesExcept states .change agree rfl
  · exact agree

include same

/-- **A step keeps the agreement on all other names.** Stimulus, continuous assignments and
always blocks stage the same for them. -/
theorem step_agreesExcept (states : SimulationState.AgreesExcept name first second) :
    SimulationState.AgreesExcept name (simulator.step first)
      ({ simulator with drives }.step second) := by
  have toggled := simulator.stageAll_agreesExcept states .edge (.refl name {})
    (simulator.toggles_agreesExcept states)
  have driven := simulator.stageAll_agreesExcept states .change toggled
    (simulator.currentDrives_agreesExcept states same)
  have assigned := simulator.stageAll_agreesExcept states .change driven
    (congrArg (writesWithout name)
      (simulator.assignedValues_agreesExcept states unread.assigns))
  have staged : Staging.AgreesExcept name (simulator.stageStep first)
      ({ simulator with drives }.stageStep second) :=
    List.foldl_rel assigned fun block member _ _ agree =>
      runBlock_agreesExcept unread states agree member
  exact states.commit staged

/-- **Whole runs agree but for the name**, by induction on the steps. -/
theorem run_agreesExcept (steps : Nat)
    (states : SimulationState.AgreesExcept name first second) :
    SimulationState.AgreesExcept name (simulator.run steps first)
      ({ simulator with drives }.run steps second) := by
  induction steps with
  | zero => exact states
  | succ steps ih =>
      rw [run_succ, run_succ]
      exact step_agreesExcept unread same ih

end Run

/-- What the module does not read, its simulator does not read: its assignments and blocks are those
of the module. -/
theorem MadeFrom.leavesUnread {simulator : Simulator} {module : Module} {config : SimulationConfig}
    (made : simulator.MadeFrom module config) (unread : module.LeavesUnread name) :
    simulator.LeavesUnread name := by
  obtain ⟨rfl, -, -, -, blocks, -, -⟩ := made
  have fromModule {block : AlwaysBlock × List StatementTree} (member : block ∈ simulator.blocks) :
      ∃ own ∈ simulator.module.alwaysBlocks, (own, simulator.module.trees own.body) = block := by
    rw [blocks] at member
    exact List.mem_map.mp member
  refine ⟨unread.assigns, ?_, ?_, ?_⟩ <;> intro block member <;>
    obtain ⟨own, inside, rfl⟩ := fromModule member
  · exact unread.bodies own inside
  · exact unread.controls own inside
  · exact unread.explicit own inside

/-- **A name that nothing reads does not influence the rest of a run.** If only its drives
differ, all other names have the same values, the same traces and the same events. -/
theorem run_isolates {module : Module} (unread : module.LeavesUnread name)
    {config other : SimulationConfig} (configs : config.AgreesExcept name other)
    {simulator driven : Simulator} (made : Simulator.make module config = .ok simulator)
    (otherMade : Simulator.make module other = .ok driven) (steps : Nat) :
    SimulationState.AgreesExcept name (simulator.run steps simulator.initial)
      (driven.run steps driven.initial) := by
  have origin := madeFrom_of_make made
  have unread := origin.leavesUnread unread
  obtain ⟨sameModule, trigger, clocks, drives, blocks, -, -⟩ := origin
  obtain ⟨otherModule, otherTrigger, otherClocks, otherDrives, otherBlocks, -, -⟩ :=
    madeFrom_of_make otherMade
  have same : simulator.drives.filter (·.signal ≠ name) =
      driven.drives.filter (·.signal ≠ name) := by
    rw [drives, otherDrives, configs.drives]
  have apart : driven = { simulator with drives := driven.drives } := by
    cases driven
    cases simulator
    simp only [Simulator.mk.injEq, true_and]
    exact ⟨otherModule.trans sameModule.symm, otherTrigger.trans (configs.trigger ▸ trigger.symm),
      otherClocks.trans (configs.clocks ▸ clocks.symm), otherBlocks.trans blocks.symm⟩
  rw [apart]
  exact run_agreesExcept unread same steps (.refl name simulator.initial)

/-- A toggle with an enable and a data input that nothing reads. The data input is driven in one
run only, and the toggle goes on in both. -/
theorem run_isolates_toggle :
    ∃ module simulator driven,
      Module.ofSource?
        "module t(input c, d, e, output reg q); wire n; assign n = ~q;
         always @(posedge c) if (e) q <= n; endmodule" = some module ∧
      module.LeavesUnread "d" ∧
      Simulator.make module { trigger := .edge, clocks := [⟨"c", 1⟩], drives := [⟨1, "e", 1⟩] } =
        .ok simulator ∧
      Simulator.make module
        { trigger := .edge, clocks := [⟨"c", 1⟩], drives := [⟨0, "d", 1⟩, ⟨1, "e", 1⟩] } =
        .ok driven ∧
      (simulator.run 4 simulator.initial).values.get? "d" ≠
        (driven.run 4 driven.initial).values.get? "d" ∧
      (simulator.run 4 simulator.initial).values.get? "q" = some 1 ∧
      SimulationState.AgreesExcept "d" (simulator.run 4 simulator.initial)
        (driven.run 4 driven.initial) := by
  let module : Module :=
    { name := "t"
      ports := [⟨"c", .input, 1, false, 1⟩, ⟨"d", .input, 1, false, 1⟩, ⟨"e", .input, 1, false, 1⟩,
        ⟨"q", .output, 1, false, 1⟩]
      signals := [⟨"q", .reg, 1, false, none, 1⟩, ⟨"n", .wire, 1, false, none, 1⟩]
      assigns := [⟨"n", "~ q", 1⟩]
      alwaysBlocks := [⟨["posedge", "c"], [1], 2⟩]
      statements := ⟨#[.assign "q" "n" false 2, .branch "e" [0] []]⟩ }
  have parsed :
      Module.ofSource?
        "module t(input c, d, e, output reg q); wire n; assign n = ~q;
         always @(posedge c) if (e) q <= n; endmodule" = some module := by decide +kernel
  have unread : module.LeavesUnread "d" := by constructor <;> decide +kernel
  let config : SimulationConfig :=
    { trigger := .edge, clocks := [⟨"c", 1⟩], drives := [⟨1, "e", 1⟩] }
  let other : SimulationConfig :=
    { trigger := .edge, clocks := [⟨"c", 1⟩], drives := [⟨0, "d", 1⟩, ⟨1, "e", 1⟩] }
  have configs : config.AgreesExcept "d" other := ⟨rfl, rfl, by decide +kernel⟩
  have made : Simulator.make module config = .ok _ :=
    make_eq_ok (by decide +kernel) (by decide +kernel)
  have otherMade : Simulator.make module other = .ok _ :=
    make_eq_ok (by decide +kernel) (by decide +kernel)
  refine ⟨module, _, _, parsed, unread, made, otherMade, ?_, ?_,
    run_isolates unread configs made otherMade 4⟩
  · decide +kernel
  · decide +kernel

end Simulator

end MiniVerilog
