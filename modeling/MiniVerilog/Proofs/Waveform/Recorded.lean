import MiniVerilog.Proofs.Module.Names
import MiniVerilog.Proofs.Token.Lexeme
import MiniVerilog.Proofs.Waveform.Lines

/-! # Dumps of recorded waveforms

The dump of a waveform that a run has recorded is read back: at the time of every sample
each signal has its sampled value, and it changes exactly at its transitions
(`MiniVerilog.Simulator.ofText_dump_tells`).
-/

namespace MiniVerilog

namespace Waveform

/-- What was read tells a waveform: the times ascend, every signal has a code of its own,
its value at the time of each sample is that sample, and it changes at its transitions. -/
structure DumpReading.Tells (reading : DumpReading) (waveform : Waveform) : Prop where
  ascending : reading.times.Pairwise (· < ·)
  distinct : (reading.codes.map Prod.fst).Nodup
  declared : reading.codes.map Prod.snd = waveform.signals.names
  samples : ∀ (name : String) (trace : Trace), waveform.signals.get? name = some trace →
    ∀ (index time : Nat), waveform.times[index]? = some time →
      ∃ value, trace.values[index]? = some value ∧ reading.valueAt? name time = some value
  transitions : ∀ (name : String) (trace : Trace), waveform.signals.get? name = some trace →
    reading.changeTimes name = trace.transitions.toList

/-- The last change up to the time of a sample gives that sample. -/
theorem getLast?_changes {trace : Trace} {times : List Nat} (ascending : times.Pairwise (· < ·))
    (size : trace.values.size = times.length) {index time : Nat}
    (sampled : times[index]? = some time) :
    ((trace.changesFrom 0 times).filter fun change => change.1 ≤ time).getLast?.map Prod.snd =
      trace.values[index]? := by
  obtain ⟨inside, here⟩ := List.getElem?_eq_some_iff.mp sampled
  have split : times = times.take (index + 1) ++ times.drop (index + 1) :=
    (List.take_append_drop (index + 1) times).symm
  have upTo : times.take (index + 1) = times.take index ++ [time] := by
    rw [List.take_succ_eq_append_getElem inside, here]
  have length : (times.take (index + 1)).length = index + 1 := by
    rw [List.length_take]
    omega
  -- The times ascend, so those up to the sample are the first ones.
  have before : ∀ other ∈ times.take (index + 1), other ≤ time := by
    intro other member
    rw [upTo, List.mem_append, List.mem_singleton] at member
    rw [split, upTo, List.append_assoc, List.pairwise_append] at ascending
    rcases member with earlier | same
    · exact Nat.le_of_lt (ascending.2.2 other earlier time List.mem_cons_self)
    · exact Nat.le_of_eq same
  have after : ∀ other ∈ times.drop (index + 1), time < other := by
    intro other member
    rw [split, List.pairwise_append] at ascending
    refine ascending.2.2 time ?_ other member
    rw [upTo]
    exact List.mem_append_right _ (List.mem_singleton.mpr rfl)
  rw [split, trace.filter_changesFrom before after, trace.getLast?_changesFrom, length,
    Nat.add_sub_cancel]
  · intro empty
    rw [empty] at length
    cases length
  · rw [length, size]
    exact inside

/-- **The dump of a regular waveform tells it.** -/
theorem Regular.tells {waveform : Waveform} (regular : waveform.Regular)
    (areWords : ∀ entry ∈ waveform.signals.entries, Source.IsWord entry.1) {scope : String}
    (noBlank : ∀ c ∈ scope.toList, Text.isBlank c = false) :
    (DumpReading.ofText (waveform.dump scope)).Tells waveform := by
  have distinct : ((coded 0 waveform.signals.entries).map Prod.fst).Nodup := by
    rw [map_fst_coded, List.Nodup, List.pairwise_map]
    exact waveform.signals.ascending.imp Std.ne_of_lt
  obtain ⟨first, others, times⟩ := List.exists_cons_of_ne_nil regular.sampled
  have sizes := regular.sizes
  have transitions := regular.transitions
  have ascending := regular.ascending
  rw [times] at sizes transitions ascending
  rw [ofText_dump areWords noBlank, times]
  constructor
  · exact ascending.sublist (valueTimes_sublist _ 0 _)
  · rw [List.map_map]
    exact nodup_codes 0 waveform.signals.entries
  · rw [List.map_map]
    exact map_fst_coded 0 waveform.signals.entries
  · intro name trace held index time sampled
    have member := NameMap.mem_entries_of_get? held
    obtain ⟨code, inside⟩ := exists_mem_coded member 0
    rw [← Array.getElem?_toList, times] at sampled
    have last := getLast?_changes ascending (sizes _ member) sampled
    have inTrace : index < trace.values.size := by
      rw [sizes _ member]
      exact (List.getElem?_eq_some_iff.mp sampled).1
    refine ⟨trace.values[index], Array.getElem?_eq_getElem inTrace, ?_⟩
    rw [valueAt?_eq rfl distinct inside, last]
    exact Array.getElem?_eq_getElem inTrace
  · intro name trace held
    have member := NameMap.mem_entries_of_get? held
    obtain ⟨code, inside⟩ := exists_mem_coded member 0
    rw [transitions _ member]
    exact changeTimes_eq rfl distinct inside

/-- Leaving signals out keeps a waveform regular and adds no name. -/
theorem Regular.retain_all {waveform kept : Waveform} (regular : waveform.Regular)
    {selections : List (List String)}
    (retained : selections.foldlM Waveform.retain waveform = .ok kept) :
    kept.Regular ∧ ∀ entry ∈ kept.signals.entries, entry ∈ waveform.signals.entries := by
  induction selections generalizing waveform with
  | nil =>
      cases retained
      exact ⟨regular, fun entry member => member⟩
  | cons names selections ih =>
      rw [List.foldlM_cons] at retained
      cases first : waveform.retain names with
      | error reason =>
          rw [first] at retained
          cases retained
      | ok selected =>
          rw [first] at retained
          obtain ⟨keptRegular, inside⟩ := ih (regular.retain first) retained
          refine ⟨keptRegular, ?_⟩
          intro entry member
          exact mem_entries_of_retain first entry (inside entry member)

end Waveform

/-- The names of a module that was read are words. -/
theorem Module.isWord_of_mem_trackedNames {source : String} {module : Module}
    (parsed : ofSource? source = some module) {name : String}
    (tracked : name ∈ module.trackedNames) : Source.IsWord name := by
  obtain ⟨token, scanned, identifier, rfl⟩ := exists_token_of_mem_trackedNames parsed tracked
  exact Token.isWord_of_mem_scan scanned identifier

namespace Simulator

/-- **The dump of a recorded waveform tells it**, also when signals are left out. -/
theorem ofText_dump_tells {source : String} {module : Module} {config : SimulationConfig}
    {simulator : Simulator} (parsed : Module.ofSource? source = some module)
    (made : Simulator.make module config = .ok simulator) (steps : Nat)
    {selections : List (List String)} {waveform : Waveform}
    (retained : selections.foldlM Waveform.retain
      (simulator.run steps simulator.initial).waveform = .ok waveform)
    {scope : String} (noBlank : ∀ c ∈ scope.toList, Text.isBlank c = false) :
    (Waveform.DumpReading.ofText (waveform.dump scope)).Tells waveform := by
  obtain ⟨regular, -⟩ := simulator.run_regular steps
  obtain ⟨keptRegular, inside⟩ := regular.retain_all retained
  apply keptRegular.tells _ noBlank
  intro entry member
  have tracked := simulator.mem_trackedNames_of_run steps entry (inside entry member)
  rw [module_of_make made] at tracked
  exact Module.isWord_of_mem_trackedNames parsed tracked

/-- The output of an inverter, of which the time without a change is left out. -/
theorem ofText_dump_tells_inverter :
    ∃ module simulator waveform,
      Module.ofSource? "module inverter(input clk, output q); assign q = ~clk; endmodule" =
        some module ∧
      Simulator.make module { clocks := [⟨"clk", 2⟩] } = .ok simulator ∧
      [["clk", "q"], ["q"]].foldlM Waveform.retain
        (simulator.run 4 simulator.initial).waveform = .ok waveform ∧
      waveform.signals.get? "q" = some ⟨#[false, true, false, false, true], #[1, 2, 4]⟩ ∧
      (Waveform.DumpReading.ofText (waveform.dump "top")).Tells waveform := by
  let module : Module :=
    { name := "inverter"
      ports := [⟨"clk", .input, 1, false, 1⟩, ⟨"q", .output, 1, false, 1⟩]
      assigns := [⟨"q", "~ clk", 1⟩] }
  let simulator : Simulator := ⟨module, .level, [⟨"clk", 2⟩], [], []⟩
  let waveform : Waveform :=
    { times := #[0, 1, 2, 3, 4]
      signals := .ofList [("q", ⟨#[false, true, false, false, true], #[1, 2, 4]⟩)] }
  have parsed :
      Module.ofSource? "module inverter(input clk, output q); assign q = ~clk; endmodule" =
        some module := by decide +kernel
  have made : Simulator.make module { clocks := [⟨"clk", 2⟩] } = .ok simulator := by
    simp only [module, simulator]
    rfl
  have retained : [["clk", "q"], ["q"]].foldlM Waveform.retain
      (simulator.run 4 simulator.initial).waveform = .ok waveform := by decide +kernel
  have noBlank : Source.IsWord "top" := by decide
  exact ⟨module, simulator, waveform, parsed, made, retained, rfl,
    ofText_dump_tells parsed made 4 retained noBlank.not_isBlank⟩

end Simulator

end MiniVerilog
