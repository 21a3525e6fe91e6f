import MiniVerilog.Proofs.Waveform.Reader

/-! # The changes of one signal in a dump

The changes that are read for a signal are those of its trace
(`MiniVerilog.Waveform.filter_valueChanges`), and only the first ones are read as values
at the start.
-/

namespace MiniVerilog.Waveform

/-- The traces with codes have the names of the entries, in order. -/
theorem map_fst_coded (index : Nat) (entries : List (String × Trace)) :
    (coded index entries).map Prod.fst = entries.map Prod.fst := by
  induction entries generalizing index with
  | nil => rfl
  | cons entry entries ih => rw [coded, List.map_cons, List.map_cons, ih]

/-- Every entry has a code. -/
theorem exists_mem_coded {name : String} {trace : Trace} {entries : List (String × Trace)}
    (member : (name, trace) ∈ entries) (index : Nat) :
    ∃ code, (name, ⟨code, trace⟩) ∈ coded index entries := by
  induction entries generalizing index with
  | nil => cases member
  | cons entry entries ih =>
      rcases List.mem_cons.mp member with here | later
      · rw [← here]
        exact ⟨_, List.mem_cons_self⟩
      · obtain ⟨code, inside⟩ := ih later (index + 1)
        exact ⟨code, List.mem_cons_of_mem _ inside⟩

/-- The codes are numbered from the given index on. -/
theorem exists_code_of_mem_coded {signal : String × CodedTrace} {index : Nat}
    {entries : List (String × Trace)} (member : signal ∈ coded index entries) :
    ∃ place, index ≤ place ∧ signal.2.code = String.ofList (code place) := by
  induction entries generalizing index with
  | nil => cases member
  | cons entry entries ih =>
      rcases List.mem_cons.mp member with here | later
      · exact ⟨index, Nat.le_refl index, by rw [here]⟩
      · obtain ⟨place, after, written⟩ := ih later
        exact ⟨place, by omega, written⟩

/-- **No two signals of a dump share a code.** -/
theorem nodup_codes (index : Nat) (entries : List (String × Trace)) :
    ((coded index entries).map fun signal => signal.2.code).Nodup := by
  induction entries generalizing index with
  | nil => exact List.nodup_nil
  | cons entry entries ih =>
      rw [coded, List.map_cons, List.nodup_cons]
      refine ⟨?_, ih (index + 1)⟩
      intro member
      obtain ⟨signal, inside, same⟩ := List.mem_map.mp member
      obtain ⟨place, after, written⟩ := exists_code_of_mem_coded inside
      have equal := code_injective (String.ofList_inj.mp (written.symm.trans same))
      omega

/-- The name of a signal is found under its code. -/
theorem lookup_code {signals : List (String × CodedTrace)} {signal : String × CodedTrace}
    (distinct : (signals.map fun signal => signal.2.code).Nodup) (member : signal ∈ signals) :
    (signals.map fun signal => (signal.2.code, signal.1)).lookup signal.2.code =
      some signal.1 := by
  induction signals with
  | nil => cases member
  | cons first signals ih =>
      rw [List.map_cons, List.nodup_cons] at distinct
      obtain ⟨absent, distinct⟩ := distinct
      rcases List.mem_cons.mp member with here | later
      · rw [here, List.map_cons, List.lookup_cons_self]
      · have different : (signal.2.code == first.2.code) = false := by
          rw [beq_eq_false_iff_ne]
          intro same
          exact absent (List.mem_map.mpr ⟨signal, later, same⟩)
        rw [List.map_cons, List.lookup_cons, different]
        exact ih distinct later

theorem changes_eq_changesAt (index : Nat) (held : CodedTrace) :
    held.changes index = held.trace.changesAt index :=
  rfl

section Changes

variable {signals : List (String × CodedTrace)} {name : String} {held : CodedTrace}

/-- A signal has at most one change in a sample. -/
theorem filter_sampleChanges (distinct : (signals.map Prod.fst).Nodup)
    (member : (name, held) ∈ signals) (index time : Nat) :
    (sampleChanges signals index time).filter (fun change => change.name = name) =
      if held.changes index then
        [⟨time, name, held.trace.values[index]?.getD false, index == 0⟩]
      else [] := by
  have one : (signals.filter fun signal => signal.2.changes index).filter
      (fun signal => signal.1 = name) = if held.changes index then [(name, held)] else [] := by
    rw [List.filter_comm, NameMap.filter_eq_singleton distinct member, List.filter_singleton,
      Bool.cond_eq_ite]
  rw [sampleChanges, List.filter_map]
  refine (congrArg _ one).trans ?_
  by_cases changes : held.changes index = true
  · rw [if_pos changes, if_pos changes]
    rfl
  · rw [if_neg changes, if_neg changes]
    rfl

/-- **The later changes of a signal are those of its trace.** -/
theorem filter_valueChanges (distinct : (signals.map Prod.fst).Nodup)
    (member : (name, held) ∈ signals) {index : Nat} (later : index ≠ 0) (times : List Nat) :
    (valueChanges signals index times).filter (fun change => change.name = name) =
      (held.trace.changesFrom index times).map fun change =>
        ⟨change.1, name, change.2, false⟩ := by
  induction times generalizing index with
  | nil => rfl
  | cons time times ih =>
      rw [valueChanges, List.filter_append, filter_sampleChanges distinct member,
        ih (Nat.succ_ne_zero index), Trace.changesFrom, changes_eq_changesAt, List.map_append,
        beq_false_of_ne later]
      congr 1
      by_cases changes : held.trace.changesAt index = true
      · rw [if_pos changes, if_pos changes]
        rfl
      · rw [if_neg changes, if_neg changes]
        rfl

/-- The changes of a signal start with its first value. -/
theorem filter_valueChanges_start (distinct : (signals.map Prod.fst).Nodup)
    (member : (name, held) ∈ signals) (time : Nat) (times : List Nat) :
    (valueChanges signals 0 (time :: times)).filter (fun change => change.name = name) =
      ⟨time, name, held.trace.values[0]?.getD false, true⟩ ::
        (held.trace.changesFrom 1 times).map fun change =>
          ⟨change.1, name, change.2, false⟩ := by
  rw [valueChanges, List.filter_append, filter_sampleChanges distinct member,
    filter_valueChanges distinct member (Nat.succ_ne_zero 0)]
  rfl

variable {reading : DumpReading} {first : Nat} {others : List Nat}

/-- **The value that was read last at a time or before** is that of the last change of the trace. -/
theorem valueAt?_eq (read : reading.changes = valueChanges signals 0 (first :: others))
    (distinct : (signals.map Prod.fst).Nodup) (member : (name, held) ∈ signals) (time : Nat) :
    reading.valueAt? name time =
      ((held.trace.changesFrom 0 (first :: others)).filter fun change =>
        change.1 ≤ time).getLast?.map Prod.snd := by
  have changes : (reading.changesOf name).map (fun change => (change.time, change.value)) =
      held.trace.changesFrom 0 (first :: others) := by
    rw [DumpReading.changesOf, read, filter_valueChanges_start distinct member, List.map_cons,
      List.map_map]
    exact congrArg (_ :: ·) (List.map_id _)
  rw [← changes, List.filter_map, List.getLast?_map, Option.map_map]
  rfl

/-- **The times at which a signal was read to change** are those of its changes behind the first
sample. -/
theorem changeTimes_eq (read : reading.changes = valueChanges signals 0 (first :: others))
    (distinct : (signals.map Prod.fst).Nodup) (member : (name, held) ∈ signals) :
    reading.changeTimes name = (held.trace.changesFrom 1 others).map Prod.fst := by
  have later : ∀ change ∈ (held.trace.changesFrom 1 others).map fun change =>
      (⟨change.1, name, change.2, false⟩ : DumpChange), (!change.initial) = true := by
    intro change inside
    obtain ⟨_, -, rfl⟩ := List.mem_map.mp inside
    rfl
  rw [DumpReading.changeTimes, DumpReading.changesOf, read,
    filter_valueChanges_start distinct member,
    List.filter_cons_of_neg (p := fun change : DumpChange => !change.initial)
      (by exact Bool.false_ne_true),
    List.filter_eq_self.mpr later, List.map_map]
  rfl

end Changes

/-- The written times are some of the times of the samples. -/
theorem valueTimes_sublist (signals : List (String × CodedTrace)) (index : Nat)
    (times : List Nat) : (valueTimes signals index times).Sublist times := by
  induction times generalizing index with
  | nil => exact List.Sublist.slnil
  | cons time times ih =>
      rw [valueTimes]
      split
      · exact (ih (index + 1)).cons_cons time
      · exact (ih (index + 1)).cons time

end MiniVerilog.Waveform
