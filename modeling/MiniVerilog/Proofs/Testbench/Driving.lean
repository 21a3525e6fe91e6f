import Mathlib.Data.List.Nodup
import MiniVerilog.Proofs.NameMap
import MiniVerilog.Proofs.Testbench.Timetable

/-! # How a testbench drives a module

A testbench toggles each clock for ever, asserts and releases each reset, and gives all ones and
then zero to each other input, and does nothing to any other name
(`MiniVerilog.Testbench.timetable_drives`).
-/

namespace MiniVerilog.Testbench

/-- The bits of a value: one bit, or ones that are repeated. -/
def bits? (value : String) : Option (List Bool) :=
  match value.toList with
  | ['0'] => some [false]
  | ['1'] => some [true]
  | '\x7b' :: text =>
    if text.dropWhile (· != '\x7b') = "\x7b1'b1\x7d\x7d".toList then
      (Literal.digits? .decimal false (text.takeWhile (· != '\x7b'))).map fun count =>
        List.replicate count true
    else none
  | _ => none

/-- The inputs of a module are driven by their names, and nothing else is driven. -/
structure Drives (module : Module) (timetable : Timetable) : Prop where
  /-- A clock is 0 at first, and is toggled from then on. -/
  clocks : ∀ port ∈ module.ports, port.direction = .input → isClockName port.name = true →
    ∃ block, timetable.drivings port.name =
      [⟨some block, 0, .assign port.name "0"⟩, ⟨some block, 0, .toggle port.name 5⟩]
  /-- All resets are asserted and released in one block. -/
  resets : ∃ block, ∀ port ∈ module.ports, port.direction = .input →
    isClockName port.name = false → isResetName port.name = true →
      timetable.drivings port.name =
        [⟨some block, 0, .assign port.name (if isActiveLow port.name then "0" else "1")⟩,
          ⟨some block, 20, .assign port.name (if isActiveLow port.name then "1" else "0")⟩]
  /-- All other inputs are driven in the block that ends the run. -/
  stimuli : ∃ block, ⟨some block, 200, .finish⟩ ∈ timetable.events ∧
    ∀ port ∈ module.ports, port.direction = .input →
      isClockName port.name = false → isResetName port.name = false →
        ∃ ones, bits? ones = some (List.replicate port.width true) ∧
          timetable.drivings port.name =
            [⟨some block, 0, .assign port.name ones⟩, ⟨some block, 100, .assign port.name "0"⟩]
  outputs : ∀ port ∈ module.ports, port.direction ≠ .input → timetable.drivings port.name = []
  onlyInputs : ∀ event ∈ timetable.events, ∀ name, event.action.target? = some name →
    ∃ port ∈ module.ports, port.direction = .input ∧ port.name = name

/-- The text for all ones, a single bit or a replication, is read as that many ones. -/
theorem bits?_allOnes {width : Nat} (pos : 0 < width) :
    bits? (allOnes width) = some (List.replicate width true) := by
  rw [allOnes]
  split
  · have noBrace : '\x7b' ∉ Nat.toDigits 10 width := fun member =>
      absurd (Nat.isDigit_of_mem_toDigits (by decide) (by decide) member) (by decide)
    have text : ("\x7b" ++ toString width ++ "\x7b1'b1\x7d\x7d").toList =
        '\x7b' :: (Nat.toDigits 10 width ++ '\x7b' :: "1'b1\x7d\x7d".toList) := by
      rw [String.toList_append, String.toList_append, Nat.toString_eq_repr, Nat.toList_repr,
        List.append_assoc]
      rfl
    rw [bits?, text]
    simp only [Text.dropWhile_mark noBrace, Text.takeWhile_mark noBrace,
      Literal.digits?_toDigits, Option.map_some]
    exact if_pos rfl
  · have one : width = 1 := by omega
    rw [one]
    rfl

/-- A reset is asserted with 0 if it is active when it is 0, and with 1 otherwise, and released with
the other bit. -/
theorem resetValue_eq (name : String) :
    resetValue true name = (if isActiveLow name then "0" else "1") ∧
      resetValue false name = if isActiveLow name then "1" else "0" := by
  unfold resetValue
  cases isActiveLow name <;> exact ⟨rfl, rfl⟩

/-- Every event of a block is one of the actions in it. -/
theorem action_mem_of_mem_eventsOf {block : Option Nat} {time : Nat} {actions : List Action}
    {event : Event} (member : event ∈ eventsOf block time actions) : event.action ∈ actions := by
  induction actions generalizing time with
  | nil => cases member
  | cons action actions ih =>
      cases action with
      | wait => exact List.mem_cons_of_mem _ (ih member)
      | _ =>
          rcases List.mem_cons.mp member with rfl | later
          · exact List.mem_cons_self
          · exact List.mem_cons_of_mem _ (ih later)

/-- Every event is an action of one of the blocks. -/
theorem exists_of_mem_blockEvents {first : Nat} {blocks : List (List Action)} {event : Event}
    (member : event ∈ blockEvents first blocks) : ∃ actions ∈ blocks, event.action ∈ actions := by
  induction blocks generalizing first with
  | nil => cases member
  | cons actions blocks ih =>
      rcases List.mem_append.mp member with here | later
      · exact ⟨actions, List.mem_cons_self, action_mem_of_mem_eventsOf here⟩
      · obtain ⟨others, inside, done⟩ := ih later
        exact ⟨others, List.mem_cons_of_mem _ inside, done⟩

/-- The names to which something is done in blocks. -/
def targets (blocks : List (List Action)) : List String :=
  blocks.flatMap fun actions => actions.filterMap Action.target?

/-- A name to which an event does something is a target of the blocks. -/
theorem mem_targets_of_mem_blockEvents {first : Nat} {blocks : List (List Action)} {event : Event}
    (member : event ∈ blockEvents first blocks) {name : String}
    (driven : event.action.target? = some name) : name ∈ targets blocks := by
  obtain ⟨actions, inside, done⟩ := exists_of_mem_blockEvents member
  exact List.mem_flatMap.mpr ⟨actions, inside, List.mem_filterMap.mpr ⟨_, done, driven⟩⟩

theorem targets_append (blocks others : List (List Action)) :
    targets (blocks ++ others) = targets blocks ++ targets others :=
  List.flatMap_append

/-- What is done to a name in blocks that are numbered from `first` on. -/
def drivingsOf (name : String) (first : Nat) (blocks : List (List Action)) : List Event :=
  (blockEvents first blocks).filter fun event => event.action.target? = some name

/-- Blocks are numbered on, so the drivings of a name in two lists of blocks stand one after the
other. -/
theorem drivingsOf_append (name : String) (first : Nat) (blocks others : List (List Action)) :
    drivingsOf name first (blocks ++ others) =
      drivingsOf name first blocks ++ drivingsOf name (first + blocks.length) others := by
  rw [drivingsOf, blockEvents_append, List.filter_append]
  rfl

theorem drivingsOf_eq_nil {name : String} {blocks : List (List Action)}
    (other : name ∉ targets blocks) (first : Nat) : drivingsOf name first blocks = [] := by
  refine List.filter_eq_nil_iff.mpr fun event member driven => other ?_
  exact mem_targets_of_mem_blockEvents member (of_decide_eq_true driven)

section Assignments

variable {ports : List Port}

/-- Assignments to ports are all made at once. -/
theorem eventsOf_assignAll (block : Option Nat) (time : Nat) (value : Port → String)
    (ports : List Port) (actions : List Action) :
    eventsOf block time (assignAll value ports ++ actions) =
      (ports.map fun port => ⟨block, time, .assign port.name (value port)⟩) ++
        eventsOf block time actions := by
  induction ports with
  | nil => rfl
  | cons port ports ih => exact congrArg (_ :: ·) ih

theorem filterMap_assignAll (value : Port → String) (ports : List Port) :
    (assignAll value ports).filterMap Action.target? = ports.map Port.name := by
  rw [assignAll, List.filterMap_map]
  exact congrFun List.filterMap_eq_map ports

/-- Among assignments to ports with distinct names there is one to each port. -/
theorem filter_assignments (distinct : (ports.map Port.name).Nodup) {port : Port}
    (member : port ∈ ports) (block : Option Nat) (time : Nat) (value : Port → String) :
    (ports.map fun port => (⟨block, time, .assign port.name (value port)⟩ : Event)).filter
        (fun event => event.action.target? = some port.name) =
      [⟨block, time, .assign port.name (value port)⟩] := by
  have one : ports.filter (fun other => some other.name = some port.name) = [port] := by
    rw [← NameMap.filter_eq_singleton distinct member]
    simp only [Option.some.injEq]
  rw [List.filter_map]
  exact congrArg (List.map _) one

end Assignments

section Phases

variable {ports : List Port} {rest : List Action} (idle : rest.filterMap Action.target? = [])
include idle

/-- Two phases of assignments have the names of the ports as targets, once for each phase. -/
theorem targets_phases (early late : Port → String) (delay : Nat) :
    targets [assignAll early ports ++ .wait delay :: (assignAll late ports ++ rest)] =
      ports.map Port.name ++ ports.map Port.name := by
  rw [targets, List.flatMap_singleton, List.filterMap_append, List.filterMap_cons_none rfl,
    List.filterMap_append, filterMap_assignAll, filterMap_assignAll, idle, List.append_nil]

/-- **Each port is driven once in each phase.** -/
theorem drivingsOf_phases (distinct : (ports.map Port.name).Nodup) {port : Port}
    (member : port ∈ ports) (early late : Port → String) (delay first : Nat) :
    drivingsOf port.name first
        [assignAll early ports ++ .wait delay :: (assignAll late ports ++ rest)] =
      [⟨some first, 0, .assign port.name (early port)⟩,
        ⟨some first, delay, .assign port.name (late port)⟩] := by
  have none : (eventsOf (some first) (0 + delay) rest).filter
      (fun event => event.action.target? = some port.name) = [] := by
    refine List.filter_eq_nil_iff.mpr fun event inside driven =>
      List.not_mem_nil (a := port.name) ?_
    rw [← idle]
    exact List.mem_filterMap.mpr ⟨_, action_mem_of_mem_eventsOf inside, of_decide_eq_true driven⟩
  rw [drivingsOf, blockEvents, blockEvents, List.append_nil, eventsOf_assignAll, eventsOf,
    eventsOf_assignAll, List.filter_append, List.filter_append,
    filter_assignments distinct member, filter_assignments distinct member, none, Nat.zero_add]
  rfl

end Phases

theorem resetActions_eq (resets : List Port) : resetActions resets =
    assignAll (fun reset => resetValue true reset.name) resets ++
      .wait 20 :: (assignAll (fun reset => resetValue false reset.name) resets ++ []) := by
  rw [List.append_nil, resetActions]

/-- A reset is asserted at once and released at time 20. -/
theorem drivingsOf_reset {resets : List Port} (distinct : (resets.map Port.name).Nodup)
    {reset : Port} (member : reset ∈ resets) (first : Nat) :
    drivingsOf reset.name first [resetActions resets] =
      [⟨some first, 0, .assign reset.name (resetValue true reset.name)⟩,
        ⟨some first, 20, .assign reset.name (resetValue false reset.name)⟩] := by
  rw [resetActions_eq]
  exact drivingsOf_phases rfl distinct member _ _ 20 first

/-- An input that is no clock and no reset gets all ones at once and zero at time 100. -/
theorem drivingsOf_stimulus {stimuli : List Port} (distinct : (stimuli.map Port.name).Nodup)
    {port : Port} (member : port ∈ stimuli) (first : Nat) :
    drivingsOf port.name first [stimulusActions stimuli] =
      [⟨some first, 0, .assign port.name (allOnes port.width)⟩,
        ⟨some first, 100, .assign port.name "0"⟩] :=
  drivingsOf_phases rfl distinct member _ _ 100 first

section Clocks

variable {clocks : List Port}

/-- The blocks of the clocks do something to the clocks only. -/
theorem mem_names_of_mem_targets_clocks {name : String}
    (member : name ∈ targets (clocks.map clockActions)) : name ∈ clocks.map Port.name := by
  rw [targets, List.flatMap_map] at member
  obtain ⟨clock, inside, driven⟩ := List.mem_flatMap.mp member
  have same : name ∈ [clock.name, clock.name] := driven
  simp only [List.mem_cons, List.not_mem_nil, or_false, or_self] at same
  exact same ▸ List.mem_map_of_mem inside

/-- **A clock is driven in a block of its own**: it is set to 0 and then toggled. The induction is
on the clocks, whose names differ from one another. -/
theorem drivingsOf_clock (distinct : (clocks.map Port.name).Nodup) {clock : Port}
    (member : clock ∈ clocks) (first : Nat) :
    ∃ block, drivingsOf clock.name first (clocks.map clockActions) =
      [⟨some block, 0, .assign clock.name "0"⟩, ⟨some block, 0, .toggle clock.name 5⟩] := by
  induction clocks generalizing first with
  | nil => cases member
  | cons head clocks ih =>
      obtain ⟨fresh, distinct⟩ := List.nodup_cons.mp distinct
      rw [List.map_cons, ← List.singleton_append, drivingsOf_append]
      rcases List.mem_cons.mp member with rfl | later
      · refine ⟨first, ?_⟩
        rw [drivingsOf_eq_nil fun driven => fresh (mem_names_of_mem_targets_clocks driven),
          List.append_nil]
        exact List.filter_eq_self.mpr (List.forall_mem_cons.mpr
          ⟨decide_eq_true rfl, List.forall_mem_singleton.mpr (decide_eq_true rfl)⟩)
      · obtain ⟨block, driven⟩ := ih distinct later (first + 1)
        have other : clock.name ∉ targets ([head].map clockActions) := fun driven => by
          rw [← List.mem_singleton.mp (mem_names_of_mem_targets_clocks driven)] at fresh
          exact fresh (List.mem_map_of_mem later)
        refine ⟨block, ?_⟩
        exact (congrArg (· ++ _) (drivingsOf_eq_nil other first)).trans driven

end Clocks

section Module

variable {module : Module} {port : Port} {name : String}

theorem mem_clocks : port ∈ clocks module ↔
    port ∈ module.ports ∧ port.direction = .input ∧ isClockName port.name = true := by
  rw [clocks, List.mem_filter, Bool.and_eq_true, beq_iff_eq]

theorem mem_resets : port ∈ resets module ↔ port ∈ module.ports ∧ port.direction = .input ∧
    isClockName port.name = false ∧ isResetName port.name = true := by
  rw [resets, List.mem_filter, Bool.and_eq_true, Bool.and_eq_true, beq_iff_eq, Bool.not_eq_true',
    and_assoc]

theorem mem_stimuli : port ∈ stimuli module ↔ port ∈ module.ports ∧ port.direction = .input ∧
    isClockName port.name = false ∧ isResetName port.name = false := by
  rw [stimuli, List.mem_filter, Bool.and_eq_true, Bool.and_eq_true, beq_iff_eq, Bool.not_eq_true',
    Bool.not_eq_true', and_assoc]

theorem exists_of_mem_targets_clocks
    (driven : name ∈ targets ((clocks module).map clockActions)) :
    ∃ port ∈ clocks module, port.name = name :=
  List.mem_map.mp (mem_names_of_mem_targets_clocks driven)

/-- The block of the resets does something to the resets only. -/
theorem exists_of_mem_targets_resets
    (driven : name ∈ targets (resetBlocks (resets module))) :
    ∃ port ∈ resets module, port.name = name := by
  unfold resetBlocks at driven
  split at driven
  · cases driven
  · rw [resetActions_eq, targets_phases rfl, List.mem_append, or_self] at driven
    exact List.mem_map.mp driven

/-- The last block does something only to inputs that are no clocks and no resets. -/
theorem exists_of_mem_targets_stimuli
    (driven : name ∈ targets [stimulusActions (stimuli module)]) :
    ∃ port ∈ stimuli module, port.name = name := by
  rw [stimulusActions, targets_phases rfl, List.mem_append, or_self] at driven
  exact List.mem_map.mp driven

/-- Only the names of inputs are driven. -/
theorem exists_input_of_mem_targets (driven : name ∈ targets (actionsOf module)) :
    ∃ port ∈ module.ports, port.direction = .input ∧ port.name = name := by
  rw [actionsOf, targets_append, targets_append, List.mem_append, List.mem_append] at driven
  rcases driven with clock | reset | stimulus
  · obtain ⟨port, member, same⟩ := exists_of_mem_targets_clocks clock
    obtain ⟨inside, input, -⟩ := mem_clocks.mp member
    exact ⟨port, inside, input, same⟩
  · obtain ⟨port, member, same⟩ := exists_of_mem_targets_resets reset
    obtain ⟨inside, input, -⟩ := mem_resets.mp member
    exact ⟨port, inside, input, same⟩
  · obtain ⟨port, member, same⟩ := exists_of_mem_targets_stimuli stimulus
    obtain ⟨inside, input, -⟩ := mem_stimuli.mp member
    exact ⟨port, inside, input, same⟩

/-- A name that is not that of a clock is not driven in the blocks of the clocks. -/
theorem drivingsOf_clocks_eq_nil (other : isClockName name = false) (first : Nat) :
    drivingsOf name first ((clocks module).map clockActions) = [] := by
  refine drivingsOf_eq_nil (fun driven => ?_) first
  obtain ⟨port, member, rfl⟩ := exists_of_mem_targets_clocks driven
  rw [(mem_clocks.mp member).2.2] at other
  cases other

/-- The name of a clock, and one that is not that of a reset, is not driven in the block of the
resets. -/
theorem drivingsOf_resets_eq_nil (other : isClockName name = true ∨ isResetName name = false)
    (first : Nat) : drivingsOf name first (resetBlocks (resets module)) = [] := by
  refine drivingsOf_eq_nil (fun driven => ?_) first
  obtain ⟨port, member, rfl⟩ := exists_of_mem_targets_resets driven
  obtain ⟨-, -, noClock, reset⟩ := mem_resets.mp member
  rw [noClock, reset] at other
  exact other.elim nofun nofun

/-- The name of a clock or of a reset is not driven in the last block. -/
theorem drivingsOf_stimuli_eq_nil (other : isClockName name = true ∨ isResetName name = true)
    (first : Nat) : drivingsOf name first [stimulusActions (stimuli module)] = [] := by
  refine drivingsOf_eq_nil (fun driven => ?_) first
  obtain ⟨port, member, rfl⟩ := exists_of_mem_targets_stimuli driven
  obtain ⟨-, -, noClock, noReset⟩ := mem_stimuli.mp member
  rw [noClock, noReset] at other
  exact other.elim nofun nofun

end Module

section Testbench

variable {source : String} {module : Module} (parsed : Module.ofSource? source = some module)
include parsed

/-- Clocks are driven first, then resets, and the other inputs in the last block. -/
theorem drivings_ofText (name : String) :
    (Timetable.ofText (text module)).drivings name =
      drivingsOf name 0 ((clocks module).map clockActions) ++
        (drivingsOf name (clocks module).length (resetBlocks (resets module)) ++
          drivingsOf name ((clocks module).length + (resetBlocks (resets module)).length)
            [stimulusActions (stimuli module)]) := by
  have all : (Timetable.ofText (text module)).drivings name =
      drivingsOf name 0 (actionsOf module) := by
    rw [Timetable.drivings, events_ofText parsed]
    rfl
  rw [all, actionsOf, drivingsOf_append, drivingsOf_append, List.length_map, Nat.zero_add]

/-- The run ends in the last block. -/
theorem finish_mem_events :
    ⟨some ((clocks module).length + (resetBlocks (resets module)).length), 200, .finish⟩ ∈
      (Timetable.ofText (text module)).events := by
  rw [events_ofText parsed, actionsOf, blockEvents_append, blockEvents_append, blockEvents,
    stimulusActions, eventsOf_assignAll, eventsOf, eventsOf_assignAll, List.length_map,
    Nat.zero_add]
  simp only [List.mem_append]
  exact .inr (.inr (.inl (.inr (.inr List.mem_cons_self))))

/-- Ports of a module that was read have distinct names, and so have those with a property. -/
theorem nodup_names_filter (property : Port → Bool) :
    ((module.ports.filter property).map Port.name).Nodup :=
  (Module.portsFit_of_ofSource? parsed).distinct.sublist (List.filter_sublist.map _)

section Inputs

variable {port : Port} (member : port ∈ module.ports) (input : port.direction = .input)
include member input

/-- In the whole testbench a clock is only set to 0 and toggled. -/
theorem drivings_clock (clock : isClockName port.name = true) :
    ∃ block, (Timetable.ofText (text module)).drivings port.name =
      [⟨some block, 0, .assign port.name "0"⟩, ⟨some block, 0, .toggle port.name 5⟩] := by
  have distinct : ((clocks module).map Port.name).Nodup := nodup_names_filter parsed _
  obtain ⟨block, driven⟩ := drivingsOf_clock distinct (mem_clocks.mpr ⟨member, input, clock⟩) 0
  refine ⟨block, ?_⟩
  rw [drivings_ofText parsed, driven, drivingsOf_resets_eq_nil (.inl clock),
    drivingsOf_stimuli_eq_nil (.inl clock)]
  rfl

/-- In the whole testbench a reset is only asserted and released, in the block after those of the
clocks. -/
theorem drivings_reset (noClock : isClockName port.name = false)
    (reset : isResetName port.name = true) :
    (Timetable.ofText (text module)).drivings port.name =
      [⟨some (clocks module).length, 0, .assign port.name (resetValue true port.name)⟩,
        ⟨some (clocks module).length, 20, .assign port.name (resetValue false port.name)⟩] := by
  have distinct : ((resets module).map Port.name).Nodup := nodup_names_filter parsed _
  have inside := mem_resets.mpr ⟨member, input, noClock, reset⟩
  have some : ¬ (resets module).isEmpty = true := fun none =>
    List.not_mem_nil (List.isEmpty_iff.mp none ▸ inside)
  rw [drivings_ofText parsed, drivingsOf_clocks_eq_nil noClock, resetBlocks, if_neg some,
    drivingsOf_reset distinct inside, drivingsOf_stimuli_eq_nil (.inr reset)]
  rfl

/-- In the whole testbench any other input only gets all ones and then zero, in the last block. -/
theorem drivings_stimulus (noClock : isClockName port.name = false)
    (noReset : isResetName port.name = false) :
    (Timetable.ofText (text module)).drivings port.name =
      [⟨some ((clocks module).length + (resetBlocks (resets module)).length), 0,
          .assign port.name (allOnes port.width)⟩,
        ⟨some ((clocks module).length + (resetBlocks (resets module)).length), 100,
          .assign port.name "0"⟩] := by
  have distinct : ((stimuli module).map Port.name).Nodup := nodup_names_filter parsed _
  have inside := mem_stimuli.mpr ⟨member, input, noClock, noReset⟩
  rw [drivings_ofText parsed, drivingsOf_clocks_eq_nil noClock,
    drivingsOf_resets_eq_nil (.inr noReset), drivingsOf_stimulus distinct inside]
  rfl

end Inputs

/-- What is driven is the name of an input. -/
theorem exists_input_of_target {event : Event}
    (member : event ∈ (Timetable.ofText (text module)).events) {name : String}
    (driven : event.action.target? = some name) :
    ∃ port ∈ module.ports, port.direction = .input ∧ port.name = name := by
  rw [events_ofText parsed] at member
  exact exists_input_of_mem_targets (mem_targets_of_mem_blockEvents member driven)

/-- **A testbench drives every input once and nothing else.** A clock is toggled for ever, a reset
is asserted and then released, and any other input gets ones and then zero. -/
theorem timetable_drives : Drives module (Timetable.ofText (text module)) := by
  have fit := Module.portsFit_of_ofSource? parsed
  refine ⟨fun port member input clock => drivings_clock parsed member input clock, ?resets,
    ?stimuli, ?outputs, fun event member name driven => exists_input_of_target parsed member driven⟩
  case resets =>
    refine ⟨(clocks module).length, fun port member input noClock reset => ?_⟩
    obtain ⟨asserted, released⟩ := resetValue_eq port.name
    rw [drivings_reset parsed member input noClock reset, asserted, released]
  case stimuli =>
    refine ⟨_, finish_mem_events parsed, fun port member input noClock noReset => ?_⟩
    exact ⟨allOnes port.width, bits?_allOnes (fit.widths port member).1,
      drivings_stimulus parsed member input noClock noReset⟩
  case outputs =>
    intro port member noInput
    refine List.filter_eq_nil_iff.mpr fun event inside driven => ?_
    obtain ⟨other, otherMember, input, same⟩ :=
      exists_input_of_target parsed inside (of_decide_eq_true driven)
    rw [List.inj_on_of_nodup_map fit.distinct otherMember member same] at input
    exact noInput input

end Testbench

/-- A clock, a reset of each kind, an input of eight bits that is none of these, and an output. -/
theorem timetable_drives_counter :
    (isClockName "CLK" = true ∧ isClockName "rst_n" = false ∧ isClockName "reset" = false ∧
      isClockName "load" = false) ∧
    (isResetName "rst_n" = true ∧ isActiveLow "rst_n" = true) ∧
    (isResetName "reset" = true ∧ isActiveLow "reset" = false) ∧ isResetName "load" = false ∧
    ∃ module, Module.ofSource?
      "module counter(input CLK, rst_n, reset, input [7:0] load, output [7:0] q); endmodule" =
        some module ∧ Drives module (Timetable.ofText (text module)) := by
  have parsed : Module.ofSource?
      "module counter(input CLK, rst_n, reset, input [7:0] load, output [7:0] q); endmodule" =
        some { name := "counter"
               ports := [⟨"CLK", .input, 1, false, 1⟩, ⟨"rst_n", .input, 1, false, 1⟩,
                 ⟨"reset", .input, 1, false, 1⟩, ⟨"load", .input, 8, false, 1⟩,
                 ⟨"q", .output, 8, false, 1⟩] } := by
    decide +kernel
  exact ⟨by decide +kernel, by decide +kernel, by decide +kernel, by decide +kernel, _, parsed,
    timetable_drives parsed⟩

end MiniVerilog.Testbench
