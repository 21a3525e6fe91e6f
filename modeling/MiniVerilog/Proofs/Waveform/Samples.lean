import Mathlib.Data.List.Induction
import MiniVerilog.Proofs.Simulation.Shape
import MiniVerilog.Waveform.Dump

/-! # The samples of a recorded waveform

A run samples every signal once at every time from 0 on, and the transitions of a signal
are the times at which its sample differs from the one before
(`MiniVerilog.Simulator.run_regular`). So the changes up to a time tell the sample at that
time (`MiniVerilog.Trace.getLast?_changesFrom`).
-/

namespace MiniVerilog

namespace Trace

/-- The sample with an index is the first one or differs from the one before. -/
def changesAt (trace : Trace) (index : Nat) : Bool :=
  index == 0 || trace.values[index]? != trace.values[index - 1]?

/-- The changes at consecutive times, the first of which has the given index. -/
def changesFrom (trace : Trace) (index : Nat) : List Nat → List (Nat × Bool)
  | [] => []
  | time :: times =>
    (if trace.changesAt index then [(time, trace.values[index]?.getD false)] else []) ++
      trace.changesFrom (index + 1) times

variable (trace : Trace)

/-- The changes at later times go on with the index after the earlier ones. -/
theorem changesFrom_append (index : Nat) (times later : List Nat) :
    trace.changesFrom index (times ++ later) =
      trace.changesFrom index times ++ trace.changesFrom (index + times.length) later := by
  induction times generalizing index with
  | nil => rfl
  | cons time times ih =>
      rw [List.cons_append, changesFrom, ih, changesFrom, List.append_assoc, List.length_cons,
        Nat.add_right_comm, Nat.add_assoc]

theorem changesFrom_singleton (index time : Nat) :
    trace.changesFrom index [time] =
      if trace.changesAt index then [(time, trace.values[index]?.getD false)] else [] :=
  List.append_nil _

/-- Changes are at the times that are looked at. -/
theorem mem_of_mem_changesFrom {index : Nat} {times : List Nat} {change : Nat × Bool}
    (member : change ∈ trace.changesFrom index times) : change.1 ∈ times := by
  induction times generalizing index with
  | nil => cases member
  | cons time times ih =>
      rcases List.mem_append.mp member with here | later
      · split at here
        · rw [List.mem_singleton.mp here]
          exact List.mem_cons_self
        · cases here
      · exact List.mem_cons_of_mem _ (ih later)

/-- Only the samples up to the last time matter. -/
theorem changesFrom_congr {first second : Trace} {index : Nat} {times : List Nat}
    (same : ∀ place < index + times.length, first.values[place]? = second.values[place]?) :
    first.changesFrom index times = second.changesFrom index times := by
  induction times generalizing index with
  | nil => rfl
  | cons time times ih =>
      rw [List.length_cons] at same
      have here := same index (by omega)
      have before := same (index - 1) (by omega)
      rw [changesFrom, changesFrom, changesAt, changesAt, here, before, ih]
      intro place inside
      exact same place (by omega)

/-- **The last change tells the sample at the last time.** -/
theorem getLast?_changesFrom {times : List Nat} (sampled : times ≠ [])
    (enough : times.length ≤ trace.values.size) :
    ((trace.changesFrom 0 times).getLast?).map Prod.snd = trace.values[times.length - 1]? := by
  induction times using List.reverseRecOn with
  | nil => exact (sampled rfl).elim
  | append_singleton times time ih =>
      rw [List.length_append, List.length_singleton] at enough ⊢
      rw [changesFrom_append, changesFrom_singleton, Nat.zero_add, Nat.add_sub_cancel]
      have inside : times.length < trace.values.size := by omega
      by_cases changes : trace.changesAt times.length = true
      · rw [if_pos changes, List.getLast?_append, Array.getElem?_eq_getElem inside]
        rfl
      · rw [if_neg changes, List.append_nil]
        unfold changesAt at changes
        rw [Bool.or_eq_true, beq_iff_eq, bne_iff_ne, not_or, not_not] at changes
        obtain ⟨later, same⟩ := changes
        rw [same]
        apply ih
        · intro empty
          exact later (congrArg List.length empty)
        · omega

/-- **A change up to a time is one at the times up to it.** -/
theorem filter_changesFrom {index time : Nat} {times later : List Nat}
    (before : ∀ other ∈ times, other ≤ time) (after : ∀ other ∈ later, time < other) :
    (trace.changesFrom index (times ++ later)).filter (fun change => change.1 ≤ time) =
      trace.changesFrom index times := by
  rw [changesFrom_append, List.filter_append]
  have kept : (trace.changesFrom index times).filter (fun change => change.1 ≤ time) =
      trace.changesFrom index times :=
    List.filter_eq_self.mpr fun change member =>
      decide_eq_true (before _ (trace.mem_of_mem_changesFrom member))
  have dropped : (trace.changesFrom (index + times.length) later).filter
      (fun change => change.1 ≤ time) = [] :=
    List.filter_eq_nil_iff.mpr fun change member inside =>
      Nat.not_lt.mpr (of_decide_eq_true inside) (after _ (trace.mem_of_mem_changesFrom member))
  rw [kept, dropped, List.append_nil]

end Trace

namespace Waveform

/-- Every signal has one sample for each time, and its transitions are its changes after
the first sample. The times may be in any order. -/
structure Consistent (waveform : Waveform) : Prop where
  sampled : waveform.times.toList ≠ []
  sizes : ∀ entry ∈ waveform.signals.entries, entry.2.values.size = waveform.times.toList.length
  transitions : ∀ entry ∈ waveform.signals.entries, entry.2.transitions.toList =
    (entry.2.changesFrom 1 waveform.times.toList.tail).map Prod.fst

/-- A consistent waveform whose times ascend. -/
structure Regular (waveform : Waveform) : Prop extends Consistent waveform where
  ascending : waveform.times.toList.Pairwise (· < ·)

/-- A new waveform has one sample for each signal and no transition. -/
theorem seeded_consistent (initial : NameMap Value) : (seeded initial).Consistent := by
  constructor
  · exact List.cons_ne_nil _ _
  · intro entry member
    obtain ⟨held, -, rfl⟩ := List.mem_map.mp member
    rfl
  · intro entry member
    obtain ⟨held, -, rfl⟩ := List.mem_map.mp member
    rfl

theorem seeded_regular (initial : NameMap Value) : (seeded initial).Regular where
  toConsistent := seeded_consistent initial
  ascending := List.pairwise_singleton _ _

/-- Sampling a trace adds its change, if there is one. -/
theorem transitions_sample {trace : Trace} {times : List Nat} (time : Nat) (bit : Bool)
    (size : trace.values.size = times.length + 1)
    (transitions : trace.transitions.toList = (trace.changesFrom 1 times).map Prod.fst) :
    (trace.sample time bit).transitions.toList =
      ((trace.sample time bit).changesFrom 1 (times ++ [time])).map Prod.fst := by
  have old : (trace.sample time bit).changesFrom 1 times = trace.changesFrom 1 times := by
    apply Trace.changesFrom_congr
    intro place inside
    exact Array.getElem?_push_lt (by omega) |>.trans (Array.getElem?_eq_getElem (by omega)).symm
  have new : (trace.sample time bit).values[times.length + 1]? = some bit := by
    rw [← size]
    exact Array.getElem?_push_size
  have last : (trace.sample time bit).values[times.length]? = trace.values.back? := by
    rw [Array.back?_eq_getElem?, size]
    exact Array.getElem?_push_lt (by omega) |>.trans (Array.getElem?_eq_getElem (by omega)).symm
  obtain ⟨final, back⟩ : ∃ final, trace.values.back? = some final := by
    rw [Array.back?_eq_getElem?, size]
    exact ⟨_, Array.getElem?_eq_getElem (by omega)⟩
  have changes : (trace.sample time bit).changesAt (1 + times.length) = (final != bit) := by
    rw [Trace.changesAt, Nat.add_comm, Nat.add_sub_cancel, new, last, back, bne_comm]
    rfl
  have pushed : (trace.sample time bit).transitions =
      if final != bit then trace.transitions.push time else trace.transitions := by
    rw [Trace.sample, back]
    rfl
  rw [Trace.changesFrom_append, Trace.changesFrom_singleton, old, List.map_append, ← transitions,
    changes, pushed]
  by_cases moved : (final != bit) = true
  · rw [if_pos moved, if_pos moved, Array.toList_push]
    rfl
  · rw [if_neg moved, if_neg moved, List.map_nil, List.append_nil]

theorem times_sample (waveform : Waveform) (time : Nat) (lookup : String → Option Value) :
    (waveform.sample time lookup).times.toList = waveform.times.toList ++ [time] :=
  Array.toList_push

/-- **Sampling keeps a waveform consistent**, at whatever time. -/
theorem Consistent.sample {waveform : Waveform} (consistent : waveform.Consistent) (time : Nat)
    (lookup : String → Option Value) : (waveform.sample time lookup).Consistent := by
  have times := waveform.times_sample time lookup
  obtain ⟨first, others, split⟩ := List.exists_cons_of_ne_nil consistent.sampled
  constructor
  · rw [times]
    exact List.append_ne_nil_of_right_ne_nil _ (List.cons_ne_nil _ _)
  · intro entry member
    obtain ⟨held, inside, rfl⟩ := List.mem_map.mp member
    rw [times, List.length_append, ← consistent.sizes held inside]
    exact Array.size_push _
  · intro entry member
    obtain ⟨held, inside, rfl⟩ := List.mem_map.mp member
    have size := consistent.sizes held inside
    have transitions := consistent.transitions held inside
    rw [split] at size transitions
    rw [times, split]
    exact transitions_sample time _ size transitions

/-- Sampling at a later time keeps a waveform regular. -/
theorem Regular.sample {waveform : Waveform} (regular : waveform.Regular) {time : Nat}
    (later : ∀ other ∈ waveform.times.toList, other < time) (lookup : String → Option Value) :
    (waveform.sample time lookup).Regular := by
  refine ⟨regular.toConsistent.sample time lookup, ?_⟩
  rw [times_sample, List.pairwise_append]
  refine ⟨regular.ascending, List.pairwise_singleton _ _, ?_⟩
  intro other before last member
  rw [List.mem_singleton.mp member]
  exact later other before

section Retain

variable {waveform kept : Waveform} {names : List String}
  (retained : waveform.retain names = .ok kept)

include retained

/-- Leaving signals out keeps the times, and the entries of the others. -/
theorem eq_of_retain :
    kept = { waveform with signals := waveform.signals.filterNames names.contains } := by
  unfold Waveform.retain at retained
  split at retained
  · cases retained
  · exact (Except.ok.inj retained).symm

theorem mem_entries_of_retain :
    ∀ entry ∈ kept.signals.entries, entry ∈ waveform.signals.entries := by
  rw [eq_of_retain retained]
  exact fun entry member => List.mem_of_mem_filter member

/-- **Leaving signals out keeps a waveform consistent.** -/
theorem Consistent.retain (consistent : waveform.Consistent) : kept.Consistent := by
  have entries := mem_entries_of_retain retained
  rw [eq_of_retain retained] at entries ⊢
  exact ⟨consistent.sampled, fun entry member => consistent.sizes entry (entries entry member),
    fun entry member => consistent.transitions entry (entries entry member)⟩

theorem Regular.retain (regular : waveform.Regular) : kept.Regular := by
  refine ⟨regular.toConsistent.retain retained, ?_⟩
  rw [eq_of_retain retained]
  exact regular.ascending

end Retain

end Waveform

namespace Simulator

/-- **The waveform of a run is regular**, and its last sample was taken at the current
time. -/
theorem run_regular (simulator : Simulator) (steps : Nat) :
    (simulator.run steps simulator.initial).waveform.Regular ∧
      ∀ time ∈ (simulator.run steps simulator.initial).waveform.times.toList,
        time ≤ (simulator.run steps simulator.initial).time := by
  apply simulator.run_invariant (fun state => state.waveform.Regular ∧
    ∀ time ∈ state.waveform.times.toList, time ≤ state.time)
  · rintro state ⟨regular, past⟩
    refine ⟨regular.sample (fun other member => Nat.lt_succ_of_le (past other member)) _, ?_⟩
    intro time member
    have times : (simulator.step state).waveform.times.toList =
        state.waveform.times.toList ++ [state.time + 1] := Waveform.times_sample ..
    rw [times, List.mem_append] at member
    rcases member with before | now
    · exact Nat.le_succ_of_le (past time before)
    · exact Nat.le_of_eq (List.mem_singleton.mp now)
  · refine ⟨Waveform.seeded_regular _, ?_⟩
    intro time member
    exact Nat.le_of_eq (List.mem_singleton.mp member)

/-- The waveform of a run has the tracked names. -/
theorem mem_trackedNames_of_run (simulator : Simulator) (steps : Nat) :
    ∀ entry ∈ (simulator.run steps simulator.initial).waveform.signals.entries,
      entry.1 ∈ simulator.module.trackedNames := by
  intro entry member
  rw [← simulator.contains_waveform_run steps]
  exact List.any_eq_true.mpr ⟨entry, member, decide_eq_true rfl⟩

end Simulator

end MiniVerilog
