import MiniVerilog.Proofs.Simulation.Triggering

/-! # Nothing happens out of nothing

A step logs no event exactly if its clocks, its drives and the continuous assignments write only
values that are there already (`MiniVerilog.Simulator.log_stageStep_eq_nil_iff`): an always block
fires only on something that was staged before its turn. The assignments depend on the current
values alone, so without clocks and drives a step without events leaves nothing to do for the next
one, and the run stays as it is (`MiniVerilog.Simulator.run_stays_quiet`).
-/

namespace MiniVerilog.Simulator

variable (simulator : Simulator) (state : SimulationState)

/-- **Only values that are pending already are staged without an event.** -/
theorem log_stageAll_eq_nil_iff {kind : EventKind} {staging : Staging}
    {writes : List (String × Value)} :
    (simulator.stageAll state kind staging writes).log = [] ↔
      staging.log = [] ∧ ∀ write ∈ writes,
        simulator.module.mask write.1 write.2 = state.pending staging write.1 := by
  induction writes generalizing staging with
  | nil => exact (and_iff_left (List.forall_mem_nil _)).symm
  | cons write writes ih =>
      change (simulator.stageAll state kind (simulator.stage state kind staging write)
        writes).log = [] ↔ _
      rw [ih, List.forall_mem_cons, stage]
      by_cases same : simulator.module.mask write.1 write.2 = state.pending staging write.1
      · rw [if_pos same, and_iff_right same]
      · -- The event of the first write stays in the log.
        rw [if_neg same]
        exact iff_of_false (fun quiet => List.concat_ne_nil _ _ quiet.1)
          (fun pending => same pending.2.1)

/-- No event control fires before anything is staged. -/
theorem isTriggered_empty (trigger : TriggerMode) (block : AlwaysBlock) :
    isTriggered state trigger {} block = false := by
  have level : isTriggered state .level {} block = false := by
    rw [Bool.eq_false_iff, Ne, isTriggered_level]
    rintro ⟨event, logged, -⟩
    cases logged
  cases trigger with
  | level => exact level
  | edge =>
      rw [Bool.eq_false_iff]
      intro fires
      rw [isTriggered_level_of_edge state (.empty state) fires] at level
      cases level

/-- What the inputs write in a step: toggles, drives and continuous assignments. -/
def inputWrites : List (String × Value) :=
  simulator.toggles state ++ simulator.currentDrives state ++ simulator.assignedValues state

/-- The inputs log nothing exactly if everything they write has that value already. -/
theorem log_stageInputs_eq_nil_iff :
    (simulator.stageInputs state).log = [] ↔
      ∀ write ∈ simulator.inputWrites state,
        simulator.module.mask write.1 write.2 = state.valueOf write.1 := by
  rw [inputWrites, List.forall_mem_append, List.forall_mem_append, stageInputs,
    log_stageAll_eq_nil_iff, log_stageAll_eq_nil_iff, log_stageAll_eq_nil_iff]
  constructor
  · rintro ⟨⟨⟨-, toggles⟩, drives⟩, assigns⟩
    rw [simulator.stageAll_eq_self state .edge toggles] at drives assigns
    rw [simulator.stageAll_eq_self state .change drives] at assigns
    exact ⟨⟨toggles, drives⟩, assigns⟩
  · rintro ⟨⟨toggles, drives⟩, assigns⟩
    rw [simulator.stageAll_eq_self state .edge toggles,
      simulator.stageAll_eq_self state .change drives]
    exact ⟨⟨⟨rfl, toggles⟩, drives⟩, assigns⟩

/-- **A step logs nothing exactly if its inputs write what is there.** No block fires on its own. -/
theorem log_stageStep_eq_nil_iff :
    (simulator.stageStep state).log = [] ↔
      ∀ write ∈ simulator.inputWrites state,
        simulator.module.mask write.1 write.2 = state.valueOf write.1 := by
  rw [← log_stageInputs_eq_nil_iff]
  constructor
  · intro quiet
    refine List.eq_nil_iff_forall_not_mem.mpr fun event logged => ?_
    have later : event ∈ (simulator.stageStep state).log :=
      (simulator.mem_log_stageStep state).mpr ⟨.inputs, logged⟩
    rw [quiet] at later
    cases later
  · intro quiet
    have empty : simulator.stageInputs state = {} :=
      SimulationState.Recorded.eq_empty (simulator.stagedBefore_recorded state 0) quiet
    have idle : ∀ index, simulator.stagedBefore state index = {} := by
      intro index
      induction index with
      | zero => exact empty
      | succ index ih =>
          cases here : simulator.blocks[index]? with
          | none => rw [stagedBefore_succ_of_none _ _ here, ih]
          | some block =>
              rw [stagedBefore_succ _ _ here, ih, runBlock, isTriggered_empty,
                if_neg Bool.false_ne_true]
    rw [stageStep_eq_stagedBefore, idle]

/-- A step without events is followed by another one if there are no clocks and nothing is driven
any more: the continuous assignments read the same values. -/
theorem log_stageStep_step_eq_nil (noClocks : simulator.clocks = [])
    (ended : ∀ drive ∈ simulator.drives, drive.time ≤ state.time)
    (quiet : (simulator.stageStep state).log = []) :
    (simulator.stageStep (simulator.step state)).log = [] := by
  have assigns := (simulator.log_stageStep_eq_nil_iff state).mp quiet
  rw [inputWrites, List.forall_mem_append] at assigns
  rw [log_stageStep_eq_nil_iff, inputWrites, step,
    (simulator.stageStep_recorded state).eq_empty quiet]
  have toggles : simulator.toggles (state.commit {}) = [] := by
    rw [Simulator.toggles, noClocks]
    rfl
  have drives : simulator.currentDrives (state.commit {}) = [] := by
    rw [currentDrives, List.filter_eq_nil_iff.mpr]
    · rfl
    · intro drive member now
      exact absurd (ended drive member) (Nat.not_le_of_gt (of_decide_eq_true now).ge)
  rw [toggles, drives]
  exact assigns.2

/-- **Quiescence is absorbing.** Without clocks, and when nothing is driven any more, a step without
events is followed by none with events, in either mode. -/
theorem run_stays_quiet {module : Module} {config : SimulationConfig} {simulator : Simulator}
    (made : Simulator.make module config = .ok simulator) (noClocks : config.clocks = [])
    {time : Nat} (ended : ∀ drive ∈ config.drives, drive.time ≤ time)
    (quiet : ∀ event ∈ (simulator.run (time + 1) simulator.initial).events.toList,
      event.time ≠ time) : simulator.QuietFrom time := by
  obtain ⟨-, -, clocks, drives, -, -, -⟩ := madeFrom_of_make made
  refine simulator.quietFrom_of_log_eq_nil fun steps late => ?_
  induction steps, late using Nat.le_induction with
  | base =>
      refine List.eq_nil_iff_forall_not_mem.mpr fun event logged => ?_
      have now := (simulator.stageStep_recorded _).timely event logged
      rw [time_run_initial] at now
      rw [run_succ, events_step] at quiet
      exact quiet event (List.mem_append_right _ logged) now
  | succ steps late ih =>
      rw [run_succ]
      apply simulator.log_stageStep_step_eq_nil _ (clocks.trans noClocks) _ ih
      intro drive member
      rw [time_run_initial]
      exact Nat.le_trans (ended drive (drives ▸ member)) late

/-- An input that is driven in step 0 reaches a register behind an inverter in the next step, and
nothing is left to do from step 2 on. -/
theorem run_stays_quiet_register :
    ∃ module simulator,
      Module.ofSource?
        "module m(input a, output reg q); wire y; assign y = ~ a; always @(*) q <= y; endmodule" =
          some module ∧
      Simulator.make module { drives := [⟨0, "a", 1⟩] } = .ok simulator ∧
      simulator.QuietFrom 2 := by
  let module : Module :=
    { name := "m"
      ports := [⟨"a", .input, 1, false, 1⟩, ⟨"q", .output, 1, false, 1⟩]
      signals := [⟨"q", .reg, 1, false, none, 1⟩, ⟨"y", .wire, 1, false, none, 1⟩]
      assigns := [⟨"y", "~ a", 1⟩]
      alwaysBlocks := [⟨["*"], [0], 1⟩]
      statements := ⟨#[.assign "q" "y" false 1]⟩ }
  have parsed :
      Module.ofSource?
        "module m(input a, output reg q); wire y; assign y = ~ a; always @(*) q <= y; endmodule" =
          some module := by decide +kernel
  have made : Simulator.make module { drives := [⟨0, "a", 1⟩] } = .ok _ :=
    make_eq_ok (by decide +kernel) (by decide +kernel)
  exact ⟨module, _, parsed, made, run_stays_quiet made rfl (by decide) (by decide +kernel)⟩

end MiniVerilog.Simulator
