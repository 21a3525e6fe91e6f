import Mathlib.Data.List.Chain
import MiniVerilog.Proofs.NameMap
import MiniVerilog.Proofs.Simulation.Block
import MiniVerilog.Simulation.Step

/-! # What a step stages

Stimulus, continuous assignments and always blocks all stage through
`MiniVerilog.Simulator.stage`, so a property of what is staged holds at the end of
a step once every single staging keeps it
(`MiniVerilog.Simulator.stageStep_invariant`). The staged values are the last
logged ones, and no logged value repeats the one before it
(`MiniVerilog.Simulator.stageStep_recorded`).
-/

namespace MiniVerilog

namespace Event

/-- The values that a log gives a name, in order. -/
def valuesOf (name : String) (log : List Event) : List Value :=
  (log.filter fun event => event.signal = name).map (·.value)

theorem valuesOf_append (name : String) (first second : List Event) :
    valuesOf name (first ++ second) = valuesOf name first ++ valuesOf name second := by
  rw [valuesOf, List.filter_append, List.map_append]
  rfl

theorem valuesOf_singleton_self (time : Nat) (name : String) (value : Value) (kind : EventKind) :
    valuesOf name [⟨time, name, value, kind⟩] = [value] := by
  simp only [valuesOf, List.filter_singleton, decide_true, cond_true, List.map_cons, List.map_nil]

theorem valuesOf_singleton_of_ne {event : Event} {name : String} (different : event.signal ≠ name) :
    valuesOf name [event] = [] := by
  simp only [valuesOf, List.filter_singleton, different, decide_false, cond_false, List.map_nil]

end Event

/-- The low bits of the low bits are the low bits. -/
theorem Value.truncate_truncate (width : Nat) (value : Value) :
    truncate width (truncate width value) = truncate width value := by
  unfold truncate
  by_cases narrow : 0 < width ∧ width < 64
  · have bound : value.toUInt64.toNat % Nat.pow 2 width < 2 ^ width :=
      Nat.mod_lt _ (Nat.two_pow_pos width)
    have small : 2 ^ width ≤ 2 ^ 63 :=
      Nat.pow_le_pow_right (by decide) (Nat.le_of_lt_succ narrow.2)
    have held : value.toUInt64.toNat % Nat.pow 2 width < UInt64.size :=
      Nat.lt_trans (Nat.lt_of_lt_of_le bound small) (by decide)
    rw [if_pos narrow, if_pos narrow, Int64.toUInt64_ofNat', UInt64.toNat_ofNat_of_lt' held,
      Nat.mod_mod]
  · rw [if_neg narrow, if_neg narrow]

/-- A masked value is staged as it is. -/
theorem Module.mask_mask (module : Module) (name : String) (value : Value) :
    module.mask name (module.mask name value) = module.mask name value := by
  unfold mask
  by_cases named : name = ""
  · rw [if_pos named, if_pos named]
  · rw [if_neg named, if_neg named]
    cases module.widthOf? name with
    | none => rfl
    | some width => exact Value.truncate_truncate width value

namespace SimulationState

/-- The current value of a name; a name without one counts as 0. -/
def valueOf (state : SimulationState) (name : String) : Value :=
  (state.values.get? name).getD 0

/-- What is staged agrees with what is logged: the events are of this step, the
staged value of a name is the last one logged for it, and every logged value
differs from the one before it, the first one from the current value. -/
structure Recorded (state : SimulationState) (staging : Staging) : Prop where
  timely : ∀ event ∈ staging.log, event.time = state.time
  latest : ∀ name, staging.staged.get? name = (Event.valuesOf name staging.log).getLast?
  changing : ∀ name,
    (state.valueOf name :: Event.valuesOf name staging.log).IsChain (· ≠ ·)

variable {state : SimulationState} {staging : Staging}

/-- Before anything is staged there is nothing to agree on. -/
theorem Recorded.empty (state : SimulationState) : state.Recorded {} where
  timely _ member := absurd member List.not_mem_nil
  latest name := NameMap.get?_empty name
  changing _ := List.isChain_singleton _

/-- The pending value is the last one logged, or else the current one. -/
theorem Recorded.pending_eq (recorded : state.Recorded staging) (name : String) :
    (state.valueOf name :: Event.valuesOf name staging.log).getLast? =
      some (state.pending staging name) := by
  rw [pending, recorded.latest name, List.getLast?_cons]
  cases (Event.valuesOf name staging.log).getLast? with
  | none => rfl
  | some value => rfl

/-- Nothing is staged when nothing is logged. -/
theorem Recorded.eq_empty (recorded : state.Recorded staging) (quiet : staging.log = []) :
    staging = {} := by
  have unstaged : staging.staged = ∅ := by
    apply NameMap.ext_get?
    intro name
    rw [recorded.latest name, quiet]
    rfl
  cases staging
  cases quiet
  cases unstaged
  rfl

end SimulationState

namespace Simulator

variable (simulator : Simulator) (state : SimulationState)

/-- Staging a value logs one event or none. -/
theorem stage_log (kind : EventKind) (staging : Staging) (write : String × Value) :
    (simulator.stage state kind staging write).log = staging.log ∨
      (simulator.stage state kind staging write).log =
        staging.log ++ [⟨state.time, write.1, simulator.module.mask write.1 write.2, kind⟩] := by
  unfold stage
  simp only
  split
  · exact .inl rfl
  · exact .inr rfl

/-- Staging a value keeps the agreement: it is logged only when it is not the
pending one, which is the last one logged. -/
theorem stage_recorded (kind : EventKind) {staging : Staging} (write : String × Value)
    (recorded : state.Recorded staging) :
    state.Recorded (simulator.stage state kind staging write) := by
  obtain ⟨target, value⟩ := write
  by_cases same : simulator.module.mask target value = state.pending staging target
  · rw [stage, if_pos same]
    exact recorded
  · rw [stage, if_neg same]
    refine ⟨?_, ?_, ?_⟩
    · intro event member
      rcases List.mem_append.mp member with old | new
      · exact recorded.timely event old
      · rw [List.mem_singleton.mp new]
    · intro name
      rw [NameMap.get?_insert, Event.valuesOf_append]
      by_cases here : target = name
      · subst here
        rw [if_pos rfl, Event.valuesOf_singleton_self, List.getLast?_concat]
      · rw [if_neg here, Event.valuesOf_singleton_of_ne here, List.append_nil, recorded.latest]
    · intro name
      rw [Event.valuesOf_append]
      by_cases here : target = name
      · subst here
        -- The new event meets the last one of its name, which has the pending value.
        rw [Event.valuesOf_singleton_self, ← List.cons_append, List.isChain_append]
        refine ⟨recorded.changing target, List.isChain_singleton _, ?_⟩
        intro last isLast next isNext
        rw [recorded.pending_eq, Option.mem_some_iff] at isLast
        rw [List.head?_cons, Option.mem_some_iff] at isNext
        exact isLast ▸ isNext ▸ Ne.symm same
      · rw [Event.valuesOf_singleton_of_ne here, List.append_nil]
        exact recorded.changing name

/-- Staging a value makes it the pending one and leaves the others. -/
theorem pending_stage (kind : EventKind) (staging : Staging) (write : String × Value)
    (name : String) :
    state.pending (simulator.stage state kind staging write) name =
      if write.1 = name then simulator.module.mask name write.2
      else state.pending staging name := by
  obtain ⟨target, value⟩ := write
  by_cases same : simulator.module.mask target value = state.pending staging target
  · rw [stage, if_pos same]
    by_cases here : target = name
    · rw [if_pos here, ← here, same]
    · rw [if_neg here]
  · rw [stage, if_neg same, SimulationState.pending, NameMap.get?_insert]
    by_cases here : target = name
    · rw [if_pos here, if_pos here, here]
      rfl
    · rw [if_neg here, if_neg here]
      rfl

/-- The value that was written to a name last. -/
def lastWrite? (name : String) (writes : List (String × Value)) : Option Value :=
  ((writes.filter fun write => write.1 = name).getLast?).map (·.2)

/-- **The last write to a name decides its pending value.** -/
theorem pending_stageAll (kind : EventKind) (staging : Staging) (writes : List (String × Value))
    (name : String) :
    state.pending (simulator.stageAll state kind staging writes) name =
      ((lastWrite? name writes).map (simulator.module.mask name)).getD
        (state.pending staging name) := by
  induction writes generalizing staging with
  | nil => rfl
  | cons write writes ih =>
      change state.pending (simulator.stageAll state kind
        (simulator.stage state kind staging write) writes) name = _
      rw [ih, pending_stage, lastWrite?, lastWrite?, List.filter_cons]
      by_cases here : write.1 = name
      · simp only [here, decide_true, ↓reduceIte, List.getLast?_cons]
        cases (writes.filter fun write => write.1 = name).getLast? with
        | none => rfl
        | some last => rfl
      · simp only [here, decide_false, Bool.false_eq_true, ↓reduceIte]

/-- A later write hides the earlier ones. -/
theorem lastWrite?_concat (name : String) (writes : List (String × Value))
    (write : String × Value) :
    lastWrite? name (writes ++ [write]) =
      if write.1 = name then some write.2 else lastWrite? name writes := by
  rw [lastWrite?, List.filter_append, List.filter_singleton]
  by_cases here : write.1 = name
  · rw [decide_eq_true here, cond_true, List.getLast?_concat, if_pos here]
    rfl
  · rw [decide_eq_false here, cond_false, List.append_nil, if_neg here]
    rfl

/-- A name that is written has a last write. -/
theorem isSome_lastWrite? {name : String} {writes : List (String × Value)}
    (written : name ∈ writes.map Prod.fst) : (lastWrite? name writes).isSome := by
  obtain ⟨write, member, rfl⟩ := List.mem_map.mp written
  have inside : write ∈ writes.filter fun other => other.1 = write.1 :=
    List.mem_filter.mpr ⟨member, decide_eq_true rfl⟩
  rw [lastWrite?, Option.isSome_map, Option.isSome_iff_ne_none, Ne, List.getLast?_eq_none_iff]
  exact List.ne_nil_of_mem inside

/-- A written name has one of the values that were written to it. -/
theorem exists_lastWrite? {name : String} {writes : List (String × Value)}
    (written : name ∈ writes.map Prod.fst) :
    ∃ value, lastWrite? name writes = some value ∧ (name, value) ∈ writes := by
  obtain ⟨value, last⟩ := Option.isSome_iff_exists.mp (isSome_lastWrite? written)
  obtain ⟨write, found, rfl⟩ := Option.map_eq_some_iff.mp last
  obtain ⟨member, same⟩ := List.mem_filter.mp (List.mem_of_getLast? found)
  exact ⟨write.2, last, of_decide_eq_true same ▸ member⟩

/-- A name that is not written has no last write. -/
theorem lastWrite?_eq_none {name : String} {writes : List (String × Value)}
    (others : ∀ write ∈ writes, write.1 ≠ name) : lastWrite? name writes = none := by
  rw [lastWrite?, List.filter_eq_nil_iff.mpr fun write member same =>
    others write member (of_decide_eq_true same)]
  rfl

/-- Of writes to distinct names each one is the last to its name. -/
theorem lastWrite?_eq_some {writes : List (String × Value)} (distinct : (writes.map Prod.fst).Nodup)
    {write : String × Value} (member : write ∈ writes) :
    lastWrite? write.1 writes = some write.2 := by
  rw [lastWrite?, NameMap.filter_eq_singleton distinct member]
  rfl

/-- Values that are pending already stage nothing. -/
theorem stageAll_eq_self (kind : EventKind) {staging : Staging} {writes : List (String × Value)}
    (pending : ∀ write ∈ writes,
      simulator.module.mask write.1 write.2 = state.pending staging write.1) :
    simulator.stageAll state kind staging writes = staging := by
  induction writes with
  | nil => rfl
  | cons write writes ih =>
      obtain ⟨first, others⟩ := List.forall_mem_cons.mp pending
      change simulator.stageAll state kind (simulator.stage state kind staging write) writes = _
      rw [stage, if_pos first]
      exact ih others

/-- The names that a step can write. -/
inductive Writes (simulator : Simulator) : String → Prop where
  | clock {clock : ClockStimulus} (member : clock ∈ simulator.clocks) :
    Writes simulator clock.signal
  | drive {drive : Drive} (member : drive ∈ simulator.drives) : Writes simulator drive.signal
  | assign {assign : Assign} (member : assign ∈ simulator.module.assigns)
    (named : assign.target ≠ "") : Writes simulator assign.target
  | block {block : AlwaysBlock × List StatementTree} (member : block ∈ simulator.blocks)
    {name : String} (assigned : name ∈ StatementTree.targetsOfBody block.2) :
    Writes simulator name

theorem toggles_writes : ∀ write ∈ simulator.toggles state, simulator.Writes write.1 := by
  intro write member
  obtain ⟨clock, listed, rfl⟩ := List.mem_map.mp member
  exact .clock (List.mem_filter.mp listed).1

/-- The drives write names of the simulator. -/
theorem currentDrives_writes :
    ∀ write ∈ simulator.currentDrives state, simulator.Writes write.1 := by
  intro write member
  obtain ⟨drive, listed, rfl⟩ := List.mem_map.mp member
  exact .drive (List.mem_filter.mp listed).1

/-- The continuous assignments write names of the simulator. -/
theorem assignedValues_writes :
    ∀ write ∈ simulator.assignedValues state, simulator.Writes write.1 := by
  intro write member
  obtain ⟨assign, listed, rfl⟩ := List.mem_map.mp member
  obtain ⟨inside, named⟩ := List.mem_filter.mp listed
  exact .assign inside (bne_iff_ne.mp named)

theorem blockWrites_targets (body : List StatementTree) :
    ∀ write ∈ simulator.blockWrites state body, write.1 ∈ StatementTree.targetsOfBody body :=
  StatementTree.runBody_writes _ _ body

section Invariant

variable {property : Staging → Prop} {allowed : String → Prop}
  (kept : ∀ kind staging write, allowed write.1 → property staging →
    property (simulator.stage state kind staging write))

include kept

/-- What staging an allowed write keeps, staging all of them keeps. -/
theorem stageAll_invariant (kind : EventKind) {writes : List (String × Value)}
    (only : ∀ write ∈ writes, allowed write.1) {staging : Staging} (start : property staging) :
    property (simulator.stageAll state kind staging writes) := by
  induction writes generalizing staging with
  | nil => exact start
  | cons write writes ih =>
      obtain ⟨first, others⟩ := List.forall_mem_cons.mp only
      exact ih others (kept kind staging write first start)

/-- What staging an allowed write keeps, a block keeps whose targets are allowed. -/
theorem runBlock_invariant (block : AlwaysBlock × List StatementTree)
    (only : ∀ name ∈ StatementTree.targetsOfBody block.2, allowed name) {staging : Staging}
    (start : property staging) : property (simulator.runBlock state staging block) := by
  unfold runBlock
  split
  · exact stageAll_invariant simulator state kept .change
      (fun write member => only _ (simulator.blockWrites_targets state _ write member)) start
  · exact start

end Invariant

/-- What staging a write of the simulator keeps, the inputs of a step keep. -/
theorem stageInputs_invariant {property : Staging → Prop}
    (kept : ∀ kind staging write, simulator.Writes write.1 → property staging →
      property (simulator.stage state kind staging write)) (start : property {}) :
    property (simulator.stageInputs state) :=
  stageAll_invariant simulator state kept .change (simulator.assignedValues_writes state)
    (stageAll_invariant simulator state kept .change (simulator.currentDrives_writes state)
      (stageAll_invariant simulator state kept .edge (simulator.toggles_writes state) start))

/-- **A property that staging the written names keeps holds of a whole step.** -/
theorem stageStep_invariant {property : Staging → Prop}
    (kept : ∀ kind staging write, simulator.Writes write.1 → property staging →
      property (simulator.stage state kind staging write)) (start : property {}) :
    property (simulator.stageStep state) := by
  have inputs : property (simulator.stageInputs state) :=
    simulator.stageInputs_invariant state kept start
  have blocks : ∀ block ∈ simulator.blocks,
      ∀ name ∈ StatementTree.targetsOfBody block.2, simulator.Writes name :=
    fun _ member _ assigned => .block member assigned
  unfold stageStep
  generalize simulator.stageInputs state = staging at inputs
  revert blocks
  generalize simulator.blocks = blocks
  intro only
  induction blocks generalizing staging with
  | nil => exact inputs
  | cons block blocks ih =>
      obtain ⟨first, others⟩ := List.forall_mem_cons.mp only
      exact ih _ (runBlock_invariant simulator state kept block first inputs) others

/-- At the end of a step what is staged agrees with what is logged. -/
theorem stageStep_recorded : state.Recorded (simulator.stageStep state) :=
  stageStep_invariant simulator state
    (fun kind _ write _ recorded => stage_recorded simulator state kind write recorded) (.empty state)

end Simulator

end MiniVerilog
