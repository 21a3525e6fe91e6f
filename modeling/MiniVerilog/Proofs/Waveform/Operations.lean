import MiniVerilog.Proofs.Waveform.Samples

/-! # Operations on waveforms

Signals are sampled at any times, and signals are left out, in any order of operations, of which
some fail. Whatever is done, every signal has one sample for each time, and its transitions are the
times at which its sample changes; and signals are left out exactly if all that are to be kept exist
(`MiniVerilog.Waveform.foldl_perform_agrees`).
-/

namespace MiniVerilog

namespace Trace

/-- The sample with an index is not the first one and differs from the one before. -/
def movesAt (trace : Trace) (index : Nat) : Bool :=
  0 < index && trace.values[index]? != trace.values[index - 1]?

/-- The times at which the sample moves, given the times of all samples. -/
def moveTimes (trace : Trace) (times : List Nat) : List Nat :=
  (times.zipIdx.filter fun entry => trace.movesAt entry.2).map Prod.fst

/-- The changes behind the first sample are at the times at which the trace moves. -/
theorem map_fst_changesFrom (trace : Trace) {index : Nat} (later : 0 < index) (times : List Nat) :
    (trace.changesFrom index times).map Prod.fst =
      ((times.zipIdx index).filter fun entry => trace.movesAt entry.2).map Prod.fst := by
  induction times generalizing index with
  | nil => rfl
  | cons time times ih =>
      have same : trace.changesAt index = trace.movesAt index := by
        rw [changesAt, movesAt, beq_false_of_ne (Nat.ne_of_gt later), Bool.false_or,
          decide_eq_true later, Bool.true_and]
      rw [changesFrom, List.map_append, ih (Nat.succ_pos index), List.zipIdx_cons,
        List.filter_cons, same]
      cases trace.movesAt index <;> rfl

/-- The first sample does not move. -/
theorem moveTimes_cons (trace : Trace) (time : Nat) (times : List Nat) :
    trace.moveTimes (time :: times) = (trace.changesFrom 1 times).map Prod.fst :=
  (trace.map_fst_changesFrom Nat.one_pos times).symm

end Trace

namespace Waveform

/-- What can be done with a waveform. -/
inductive Operation where
  | sample (time : Nat) (lookup : String → Option Value)
  | retain (names : List String)

/-- Performs an operation. One that fails leaves the waveform as it is. -/
def perform (waveform : Waveform) : Operation → Waveform
  | .sample time lookup => waveform.sample time lookup
  | .retain names => (waveform.retain names).toOption.getD waveform

/-- The traces of a waveform agree with its times: there is one sample for each time, which is
written as 0 or 1, and the transitions are the times at which the sample moves. -/
structure Agrees (waveform : Waveform) : Prop where
  sizes : ∀ name trace, waveform.signal? name = some trace →
    trace.values.size = waveform.times.size
  bits : ∀ name trace, waveform.signal? name = some trace →
    ∀ bit ∈ trace.values, bit.toNat = 0 ∨ bit.toNat = 1
  transitions : ∀ name trace, waveform.signal? name = some trace →
    trace.transitions.toList = trace.moveTimes waveform.times.toList

/-- A consistent waveform tells its samples and transitions by lookups. -/
theorem Consistent.agrees {waveform : Waveform} (consistent : waveform.Consistent) :
    waveform.Agrees where
  sizes := fun name trace held => consistent.sizes _ (NameMap.mem_entries_of_get? held)
  bits := fun name trace held bit member => by cases bit <;> decide
  transitions := fun name trace held => by
    obtain ⟨first, others, split⟩ := List.exists_cons_of_ne_nil consistent.sampled
    have transitions := consistent.transitions _ (NameMap.mem_entries_of_get? held)
    rw [split] at transitions ⊢
    rw [transitions, Trace.moveTimes_cons]
    rfl

/-- **Every operation keeps a waveform consistent**; one that is refused leaves it as it was. -/
theorem Consistent.perform {waveform : Waveform} (consistent : waveform.Consistent)
    (operation : Operation) : (waveform.perform operation).Consistent := by
  cases operation with
  | sample time lookup => exact consistent.sample time lookup
  | retain names =>
      rw [Waveform.perform]
      cases retained : waveform.retain names with
      | error reason => exact consistent
      | ok kept => exact consistent.retain retained

/-- Signals are left out if all names that are to be kept exist. Then exactly these keep their
traces, and the times stay. Otherwise nothing changes, and the first name that does not exist is
told. -/
structure Retains (waveform : Waveform) (names : List String) : Prop where
  succeeds : (∃ kept, waveform.retain names = .ok kept) ↔
    ∀ name ∈ names, ∃ trace, waveform.signal? name = some trace
  keeps : ∀ kept, waveform.retain names = .ok kept →
    waveform.perform (.retain names) = kept ∧ kept.times = waveform.times ∧
      ∀ name, kept.signal? name = if name ∈ names then waveform.signal? name else none
  refuses : ∀ reason, waveform.retain names = .error reason →
    waveform.perform (.retain names) = waveform ∧
      ∃ missing ∈ names, waveform.signal? missing = none ∧ reason = .unknownSignal missing

/-- Keeping signals is refused for one that is missing. -/
theorem retain_eq_error {waveform : Waveform} {names : List String} {reason : SimulationError}
    (refused : waveform.retain names = .error reason) :
    ∃ missing ∈ names, waveform.signal? missing = none ∧ reason = .unknownSignal missing := by
  unfold Waveform.retain at refused
  split at refused
  · rename_i missing found
    refine ⟨missing, List.mem_of_find?_eq_some found, ?_, (Except.error.inj refused).symm⟩
    have absent := List.find?_some found
    rw [NameMap.contains_eq_isSome, Bool.not_eq_true', Option.isSome_eq_false_iff] at absent
    exact Option.isNone_iff_eq_none.mp absent
  · cases refused

/-- Keeping signals succeeds only if all of them are there. -/
theorem retain_eq_ok {waveform kept : Waveform} {names : List String}
    (retained : waveform.retain names = .ok kept) {name : String} (member : name ∈ names) :
    ∃ trace, waveform.signal? name = some trace := by
  unfold Waveform.retain at retained
  split at retained
  · cases retained
  · rename_i none
    have present := List.find?_eq_none.mp none name member
    rw [NameMap.contains_eq_isSome, Bool.not_eq_true', Bool.not_eq_false] at present
    exact Option.isSome_iff_exists.mp present

/-- **Keeping signals keeps these and no others**, or names one that is missing. -/
theorem retains (waveform : Waveform) (names : List String) : waveform.Retains names := by
  constructor
  case succeeds =>
    constructor
    · rintro ⟨kept, retained⟩ name member
      exact retain_eq_ok retained member
    · intro present
      cases retained : waveform.retain names with
      | ok kept => exact ⟨kept, rfl⟩
      | error reason =>
          obtain ⟨missing, member, absent, -⟩ := retain_eq_error retained
          obtain ⟨trace, held⟩ := present missing member
          rw [absent] at held
          cases held
  case keeps =>
    intro kept retained
    refine ⟨?_, ?_, fun name => ?_⟩
    · rw [perform, retained]
      rfl
    · rw [eq_of_retain retained]
    · rw [eq_of_retain retained, signal?, NameMap.get?_filterNames]
      simp only [List.contains_iff_mem]
      rfl
  case refuses =>
    intro reason refused
    refine ⟨?_, retain_eq_error refused⟩
    rw [perform, refused]
    rfl

/-- **Every waveform that operations reach agrees with its times**, and leaving signals out of it
keeps the others as they are, or fails and changes nothing. -/
theorem foldl_perform_agrees (initial : NameMap Value) (operations : List Operation)
    (names : List String) :
    (operations.foldl perform (seeded initial)).Agrees ∧
      (operations.foldl perform (seeded initial)).Retains names := by
  have consistent : (operations.foldl perform (seeded initial)).Consistent :=
    List.foldlRecOn operations perform (seeded_consistent initial)
      fun _ consistent operation _ => consistent.perform operation
  exact ⟨consistent.agrees, retains _ names⟩

end Waveform

end MiniVerilog
