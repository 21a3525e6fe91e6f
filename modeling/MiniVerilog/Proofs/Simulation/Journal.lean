import MiniVerilog.Proofs.Simulation.Run
import MiniVerilog.Proofs.Simulation.Staging

/-! # The event log as a journal

The log of a run tells the whole history of the values: it is in the order of
time, the value of a signal at any time is that of the last event before that time,
and no event repeats the value before it (`MiniVerilog.Simulator.run_follows_journal`).
The invariant that carries this from step to step is
`MiniVerilog.SimulationState.Journal`.
-/

namespace MiniVerilog

/-- The value of a name according to a log: that of its last event, or the one it
started with. -/
def Event.lastValue (log : List Event) (name : String) (start : Value) : Value :=
  ((log.filter fun event => event.signal = name).getLast?.map (·.value)).getD start

theorem Event.lastValue_eq_getLast? (log : List Event) (name : String) (start : Value) :
    Event.lastValue log name start = (valuesOf name log).getLast?.getD start := by
  rw [lastValue, valuesOf, List.getLast?_map]

namespace SimulationState

/-- The log of a state is a journal from the values that the names started with. -/
structure Journal (start : String → Value) (state : SimulationState) : Prop where
  ordered : state.events.toList.Pairwise fun earlier later => earlier.time ≤ later.time
  past : ∀ event ∈ state.events.toList, event.time < state.time
  current : ∀ name, state.valueOf name = Event.lastValue state.events.toList name (start name)
  changing : ∀ name,
    (start name :: Event.valuesOf name state.events.toList).IsChain (· ≠ ·)

variable {start : String → Value} {state : SimulationState}

/-- The last value of the journal, the one at the start included, is the current
one. -/
theorem Journal.getLast?_eq (journal : state.Journal start) (name : String) :
    (start name :: Event.valuesOf name state.events.toList).getLast? =
      some (state.valueOf name) := by
  rw [List.getLast?_cons, journal.current, Event.lastValue_eq_getLast?]

/-- Before anything has happened the log is empty. -/
theorem Journal.of_no_events (none : state.events = #[]) :
    state.Journal state.valueOf where
  ordered := by rw [none]; exact List.Pairwise.nil
  past event member := by rw [none] at member; exact absurd member List.not_mem_nil
  current name := by rw [none]; rfl
  changing name := by rw [none]; exact List.isChain_singleton _

end SimulationState

namespace Simulator

variable (simulator : Simulator) {state : SimulationState}

/-- After a step a name has the value that was pending at its end. -/
theorem valueOf_step (state : SimulationState) (name : String) :
    (simulator.step state).valueOf name = state.pending (simulator.stageStep state) name := by
  rw [SimulationState.valueOf, get?_step]
  rfl

/-- After a run a tracked name has a value. -/
theorem get?_run_tracked {name : String} (tracked : name ∈ simulator.module.trackedNames)
    (steps : Nat) :
    (simulator.run steps simulator.initial).values.get? name =
      some ((simulator.run steps simulator.initial).valueOf name) := by
  have start : (simulator.initial.values.get? name).isSome := by
    rw [get?_initial, if_pos tracked, Option.isSome_some]
  obtain ⟨value, held⟩ := Option.isSome_iff_exists.mp (simulator.isSome_get?_run start steps)
  rw [SimulationState.valueOf, held, Option.getD_some]

/-- A step only adds events, those of its own time. -/
theorem events_step (state : SimulationState) :
    (simulator.step state).events.toList =
      state.events.toList ++ (simulator.stageStep state).log :=
  Array.toList_appendList

/-- A step continues the journal by the events it logs. -/
theorem step_journal {start : String → Value} (journal : state.Journal start) :
    (simulator.step state).Journal start := by
  have recorded := simulator.stageStep_recorded state
  have log := simulator.events_step state
  refine ⟨?_, ?_, ?_, ?_⟩
  · rw [log, List.pairwise_append]
    refine ⟨journal.ordered, ?_, ?_⟩
    · apply List.pairwise_of_forall_mem_list
      intro earlier earlierMember later laterMember
      rw [recorded.timely earlier earlierMember, recorded.timely later laterMember]
    · intro earlier earlierMember later laterMember
      rw [recorded.timely later laterMember]
      exact Nat.le_of_lt (journal.past earlier earlierMember)
  · intro event member
    rw [log] at member
    change event.time < state.time + 1
    rcases List.mem_append.mp member with old | new
    · exact Nat.lt_succ_of_lt (journal.past event old)
    · rw [recorded.timely event new]
      exact Nat.lt_succ_self _
  · intro name
    -- The last value of a name is the one staged in this step, or else the last one before it.
    rw [log, Event.lastValue_eq_getLast?, Event.valuesOf_append, List.getLast?_append,
      ← recorded.latest name]
    rw [SimulationState.valueOf, get?_step]
    cases (simulator.stageStep state).staged.get? name with
    | some staged => rfl
    | none =>
        rw [Option.none_or, Option.none_or, ← Event.lastValue_eq_getLast?, ← journal.current name]
        rfl
  · intro name
    -- Only the place where the new events meet the old ones is left to show.
    rw [log, Event.valuesOf_append, ← List.cons_append, List.isChain_append]
    obtain ⟨first, following⟩ := List.isChain_cons.mp (recorded.changing name)
    refine ⟨journal.changing name, following, ?_⟩
    intro last isLast next isNext
    rw [journal.getLast?_eq, Option.mem_some_iff] at isLast
    exact isLast ▸ first next isNext

/-- A longer run has the log of the shorter one and later events after it. -/
theorem events_run_add (steps : Nat) (state : SimulationState) :
    ∃ later, (simulator.run steps state).events.toList = state.events.toList ++ later ∧
      ∀ event ∈ later, state.time ≤ event.time := by
  induction steps with
  | zero => exact ⟨[], (List.append_nil _).symm, fun event member => absurd member List.not_mem_nil⟩
  | succ steps ih =>
      obtain ⟨later, log, notBefore⟩ := ih
      have recorded := simulator.stageStep_recorded (simulator.run steps state)
      refine ⟨later ++ (simulator.stageStep (simulator.run steps state)).log, ?_, ?_⟩
      · rw [run_succ, events_step, log, List.append_assoc]
      · intro event member
        rcases List.mem_append.mp member with old | new
        · exact notBefore event old
        · rw [recorded.timely event new, time_run]
          exact Nat.le_add_right _ _

/-- The journal of a run from the start. -/
theorem run_initial_journal (steps : Nat) :
    (simulator.run steps simulator.initial).Journal simulator.initial.valueOf :=
  simulator.run_invariant (SimulationState.Journal simulator.initial.valueOf)
    (fun _ journal => simulator.step_journal journal) (.of_no_events rfl) steps

/-- Up to a time the log of a longer run is the log of the run that ends then. -/
theorem filter_events_before {time steps : Nat} (within : time ≤ steps) :
    (simulator.run steps simulator.initial).events.toList.filter (fun event => event.time < time) =
      (simulator.run time simulator.initial).events.toList := by
  obtain ⟨more, rfl⟩ := Nat.exists_eq_add_of_le within
  rw [run_add]
  obtain ⟨later, log, notBefore⟩ :=
    simulator.events_run_add more (simulator.run time simulator.initial)
  rw [log, List.filter_append]
  have earlier : (simulator.run time simulator.initial).events.toList.filter
      (fun event => event.time < time) = (simulator.run time simulator.initial).events.toList := by
    rw [List.filter_eq_self]
    intro event member
    have past := (simulator.run_initial_journal time).past event member
    rw [time_run_initial] at past
    exact decide_eq_true past
  have nothing : later.filter (fun event => event.time < time) = [] := by
    rw [List.filter_eq_nil_iff]
    intro event member
    have notEarlier := notBefore event member
    rw [time_run_initial] at notEarlier
    simp only [decide_eq_true_eq, Nat.not_lt, notEarlier]
  rw [earlier, nothing, List.append_nil]

/-- From a number of steps on there are no events, and the values stay as they are. -/
structure QuietFrom (simulator : Simulator) (start : Nat) : Prop where
  quiet : ∀ steps, ∀ event ∈ (simulator.run steps simulator.initial).events.toList,
    event.time < start
  still : ∀ steps, start ≤ steps →
    (simulator.run steps simulator.initial).values =
      (simulator.run start simulator.initial).values

/-- Steps that log nothing from some time on leave the run as it is. -/
theorem quietFrom_of_log_eq_nil {start : Nat}
    (idle : ∀ steps, start ≤ steps →
      (simulator.stageStep (simulator.run steps simulator.initial)).log = []) :
    simulator.QuietFrom start := by
  constructor
  · intro steps
    induction steps with
    | zero => exact List.forall_mem_nil _
    | succ steps ih =>
        intro event member
        rw [run_succ, events_step] at member
        rcases List.mem_append.mp member with old | new
        · exact ih event old
        · by_contra late
          have now := (simulator.stageStep_recorded _).timely event new
          rw [time_run_initial] at now
          rw [idle steps (now ▸ Nat.not_lt.mp late)] at new
          cases new
  · intro steps late
    induction steps, late using Nat.le_induction with
    | base => rfl
    | succ steps late ih =>
        rw [← ih, run_succ, step, (simulator.stageStep_recorded _).eq_empty (idle steps late)]
        rfl

/-- **The event log is a complete journal of a run.** Its times never decrease and
lie before the end of the run. At every time a tracked signal has the value of its
last event before that time, or its initial value. And the events of a name, after
the value it started with, never repeat the value before them. -/
theorem run_follows_journal {module : Module} {config : SimulationConfig} {simulator : Simulator}
    (made : Simulator.make module config = .ok simulator) (steps : Nat) :
    let log := (simulator.run steps simulator.initial).events.toList
    (log.Pairwise fun earlier later => earlier.time ≤ later.time) ∧
      (∀ event ∈ log, event.time < steps) ∧
      (∀ name ∈ module.trackedNames, ∀ time ≤ steps,
        (simulator.run time simulator.initial).values.get? name =
          some (Event.lastValue (log.filter fun event => event.time < time) name
            (module.initialValue name))) ∧
      ∀ name, ((simulator.initial.values.get? name).getD 0 ::
        Event.valuesOf name log).IsChain (· ≠ ·) := by
  obtain rfl := module_of_make made
  have journal := simulator.run_initial_journal steps
  refine ⟨journal.ordered, ?_, ?_, journal.changing⟩
  · intro event member
    have past := journal.past event member
    rw [time_run] at past
    exact Nat.zero_add steps ▸ past
  · intro name tracked time within
    have start := simulator.get?_initial name
    rw [if_pos tracked] at start
    have startsWith : simulator.initial.valueOf name = simulator.module.initialValue name := by
      rw [SimulationState.valueOf, start, Option.getD_some]
    have present : ((simulator.run time simulator.initial).values.get? name).isSome :=
      simulator.isSome_get?_run (by rw [start, Option.isSome_some]) time
    obtain ⟨value, held⟩ := Option.isSome_iff_exists.mp present
    have current := (simulator.run_initial_journal time).current name
    rw [SimulationState.valueOf, held, Option.getD_some, startsWith] at current
    rw [held, simulator.filter_events_before within, current]

/-- The journal of an inverter of a clock that toggles at every other step. -/
theorem run_follows_journal_inverter :
    let module : Module :=
      { name := "inverter"
        ports := [⟨"clk", .input, 1, false, 1⟩, ⟨"q", .output, 1, false, 1⟩]
        assigns := [⟨"q", "~ clk", 2⟩] }
    let config : SimulationConfig := { clocks := [⟨"clk", 2⟩] }
    ∃ simulator, Simulator.make module config = .ok simulator ∧
      let log := (simulator.run 4 simulator.initial).events.toList
      (log.Pairwise fun earlier later => earlier.time ≤ later.time) ∧
        (∀ event ∈ log, event.time < 4) ∧
        (∀ name ∈ module.trackedNames, ∀ time ≤ 4,
          (simulator.run time simulator.initial).values.get? name =
            some (Event.lastValue (log.filter fun event => event.time < time) name
              (module.initialValue name))) ∧
        ∀ name, ((simulator.initial.values.get? name).getD 0 ::
          Event.valuesOf name log).IsChain (· ≠ ·) :=
  ⟨_, rfl, run_follows_journal
    (show Simulator.make _ { clocks := [⟨"clk", 2⟩] } = .ok _ from rfl) 4⟩

end Simulator

end MiniVerilog
