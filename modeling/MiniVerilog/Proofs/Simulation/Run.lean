import MiniVerilog.Proofs.NameMap
import MiniVerilog.Simulation.Step

/-! # Runs of a simulator

A run is a number of steps, and a property of states that every step keeps holds
after every run (`MiniVerilog.Simulator.run_invariant`). The time is the number of
steps, and a name that has a value keeps having one.
-/

namespace MiniVerilog.Simulator

variable (simulator : Simulator)

/-- A check of all entries that passes has passed for each. -/
theorem check_of_forM {α : Type} {check : α → Except SimulationError Unit} {entries : List α}
    (passed : entries.forM check = .ok ()) : ∀ entry ∈ entries, check entry = .ok () := by
  induction entries with
  | nil => exact List.forall_mem_nil _
  | cons entry entries ih =>
      rw [show (entry :: entries).forM check = check entry >>= fun _ => entries.forM check from rfl]
        at passed
      cases first : check entry with
      | error reason =>
          rw [first] at passed
          cases passed
      | ok =>
          rw [first] at passed
          exact List.forall_mem_cons.mpr ⟨first, ih passed⟩

/-- A simulator that is made has the stimulus of the configuration, and all its signals
are names of the module. -/
structure MadeFrom (simulator : Simulator) (module : Module) (config : SimulationConfig) :
    Prop where
  module_eq : simulator.module = module
  trigger_eq : simulator.trigger = config.trigger
  clocks_eq : simulator.clocks = config.clocks
  drives_eq : simulator.drives = config.drives
  blocks_eq : simulator.blocks =
    module.alwaysBlocks.map fun block => (block, module.trees block.body)
  clocks : ∀ clock ∈ config.clocks,
    clock.signal ∈ module.trackedNames ∧ clock.halfPeriod ≠ 0
  drives : ∀ drive ∈ config.drives, drive.signal ∈ module.trackedNames

/-- A name with an initial value is tracked. -/
theorem mem_trackedNames_of_contains {module : Module} {name : String}
    (known : module.initialValues.contains name = true) : name ∈ module.trackedNames := by
  rw [NameMap.contains_eq_isSome, Module.initialValues, NameMap.get?_ofList_map] at known
  by_contra absent
  rw [if_neg absent] at known
  cases known

/-- **A simulator is made from its module and its configuration** when all checks pass, one after
the other. -/
theorem madeFrom_of_make {module : Module} {config : SimulationConfig} {simulator : Simulator}
    (made : Simulator.make module config = .ok simulator) :
    simulator.MadeFrom module config := by
  unfold make at made
  cases clocks : config.clocks.forM (checkClock module.initialValues.contains) with
  | error reason =>
      simp only [clocks, bind, Except.bind, reduceCtorEq] at made
  | ok _ =>
      cases drives : config.drives.forM (checkDrive module.initialValues.contains) with
      | error reason =>
          simp only [clocks, drives, bind, Except.bind, reduceCtorEq] at made
      | ok _ =>
          simp only [clocks, drives, bind, Except.bind, pure, Except.pure, Except.ok.injEq] at made
          subst made
          refine ⟨rfl, rfl, rfl, rfl, rfl, ?_, ?_⟩
          · intro clock member
            have passed := check_of_forM clocks clock member
            unfold checkClock at passed
            split at passed
            · cases passed
            · rename_i known
              split at passed
              · cases passed
              · rename_i moves
                rw [Bool.not_eq_true', Bool.not_eq_false] at known
                exact ⟨mem_trackedNames_of_contains known, moves⟩
          · intro drive member
            have passed := check_of_forM drives drive member
            unfold checkDrive at passed
            split at passed
            · exact mem_trackedNames_of_contains ‹_›
            · cases passed

/-- The simulator that is made for a module simulates that module. -/
theorem module_of_make {module : Module} {config : SimulationConfig} {simulator : Simulator}
    (made : Simulator.make module config = .ok simulator) : simulator.module = module :=
  (madeFrom_of_make made).module_eq

theorem contains_of_mem_trackedNames {module : Module} {name : String}
    (tracked : name ∈ module.trackedNames) : module.initialValues.contains name = true := by
  rw [NameMap.contains_eq_isSome, Module.initialValues, NameMap.get?_ofList_map, if_pos tracked]
  rfl

/-- A check that passes for each entry passes for all. -/
theorem forM_of_check {α : Type} {check : α → Except SimulationError Unit} {entries : List α}
    (passed : ∀ entry ∈ entries, check entry = .ok ()) : entries.forM check = .ok () := by
  induction entries with
  | nil => rfl
  | cons entry entries ih =>
      obtain ⟨first, others⟩ := List.forall_mem_cons.mp passed
      rw [show (entry :: entries).forM check = check entry >>= fun _ => entries.forM check from rfl,
        first]
      exact ih others

/-- A stimulus of known signals, with clocks that move, makes a simulator. -/
theorem make_eq_ok {module : Module} {config : SimulationConfig}
    (clocks : ∀ clock ∈ config.clocks,
      clock.signal ∈ module.trackedNames ∧ clock.halfPeriod ≠ 0)
    (drives : ∀ drive ∈ config.drives, drive.signal ∈ module.trackedNames) :
    Simulator.make module config = .ok
      { module
        trigger := config.trigger
        clocks := config.clocks
        drives := config.drives
        blocks := module.alwaysBlocks.map fun block => (block, module.trees block.body) } := by
  have clocksPass : config.clocks.forM (checkClock module.initialValues.contains) = .ok () := by
    apply forM_of_check
    intro clock member
    obtain ⟨tracked, moves⟩ := clocks clock member
    rw [checkClock, contains_of_mem_trackedNames tracked, Bool.not_true,
      if_neg Bool.false_ne_true, if_neg moves]
  have drivesPass : config.drives.forM (checkDrive module.initialValues.contains) = .ok () := by
    apply forM_of_check
    intro drive member
    rw [checkDrive, if_pos (contains_of_mem_trackedNames (drives drive member))]
  simp only [make, clocksPass, drivesPass, bind, Except.bind, pure, Except.pure]

/-- Before the first step a tracked name has its initial value and no other name
has any. -/
theorem get?_initial (name : String) :
    simulator.initial.values.get? name =
      if name ∈ simulator.module.trackedNames then some (simulator.module.initialValue name)
      else none :=
  NameMap.get?_ofList_map simulator.module.initialValue simulator.module.trackedNames name

@[simp] theorem run_zero (state : SimulationState) : simulator.run 0 state = state :=
  rfl

/-- Steps after steps are a longer run. -/
theorem run_add (first second : Nat) (state : SimulationState) :
    simulator.run (first + second) state = simulator.run second (simulator.run first state) := by
  induction first generalizing state with
  | zero => rw [Nat.zero_add, run_zero]
  | succ first ih =>
      rw [Nat.succ_add]
      exact ih (simulator.step state)

/-- The last step of a run comes after the others. -/
theorem run_succ (steps : Nat) (state : SimulationState) :
    simulator.run (steps + 1) state = simulator.step (simulator.run steps state) :=
  simulator.run_add steps 1 state

/-- **A property that every step keeps holds after every run.** -/
theorem run_invariant (property : SimulationState → Prop)
    (kept : ∀ state, property state → property (simulator.step state))
    {state : SimulationState} (start : property state) (steps : Nat) :
    property (simulator.run steps state) := by
  induction steps with
  | zero => exact start
  | succ steps ih =>
      rw [run_succ]
      exact kept _ ih

/-- The time is the number of steps. -/
theorem time_run (steps : Nat) (state : SimulationState) :
    (simulator.run steps state).time = state.time + steps := by
  induction steps with
  | zero => rfl
  | succ steps ih =>
      rw [run_succ, ← Nat.add_assoc, ← ih]
      rfl

theorem time_run_initial (steps : Nat) : (simulator.run steps simulator.initial).time = steps := by
  rw [time_run]
  exact Nat.zero_add steps

/-- After a step a name has its staged value, or else the one it had. -/
theorem get?_step (state : SimulationState) (name : String) :
    (simulator.step state).values.get? name =
      ((simulator.stageStep state).staged.get? name).or (state.values.get? name) :=
  NameMap.get?_overlay state.values (simulator.stageStep state).staged name

/-- A name that has a value keeps having one. -/
theorem isSome_get?_run {state : SimulationState} {name : String}
    (present : (state.values.get? name).isSome) (steps : Nat) :
    ((simulator.run steps state).values.get? name).isSome :=
  simulator.run_invariant (fun state => (state.values.get? name).isSome)
    (fun state present => by rw [get?_step, Option.isSome_or, present, Bool.or_true]) present steps

end MiniVerilog.Simulator
