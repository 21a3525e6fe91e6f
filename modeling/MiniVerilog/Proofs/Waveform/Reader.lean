import MiniVerilog.Proofs.Text.Line
import MiniVerilog.Proofs.Text.Words
import MiniVerilog.Proofs.Waveform.Code
import MiniVerilog.Proofs.Waveform.Samples

/-! # Reading a dump

A plain reader of dumps goes through the lines of a text: it notes the code of every
declared signal, and after the definitions the times and the values that are set. What it
reads from the lines of a dump are the changes of the samples
(`MiniVerilog.Waveform.foldl_valueLines`).
-/

namespace MiniVerilog.Waveform

/-- A value that a dump gives to a signal, and whether it is one of the values that are
given at the start. -/
structure DumpChange where
  time : Nat
  name : String
  value : Bool
  initial : Bool
  deriving DecidableEq

/-- What was read from the lines so far. -/
structure DumpReading where
  codes : List (String × String) := []
  defined : Bool := false
  dumping : Bool := false
  times : List Nat := []
  changes : List DumpChange := []
  deriving DecidableEq

namespace DumpReading

/-- Reads a line of the definitions. -/
def readDeclaration (reading : DumpReading) (line : String) : DumpReading :=
  match Text.wordsOf line with
  | ["$var", "wire", "1", code, name, "$end"] =>
    { reading with codes := reading.codes ++ [(code, name)] }
  | ["$enddefinitions", "$end"] => { reading with defined := true }
  | _ => reading

/-- Sets the signal with a code at the last time. -/
def assign (reading : DumpReading) (value : Bool) (code : String) : DumpReading :=
  match reading.codes.lookup code with
  | some name =>
    { reading with
      changes := reading.changes ++ [⟨reading.times.getLastD 0, name, value, reading.dumping⟩] }
  | none => reading

/-- Reads a line after the definitions. -/
def readChange (reading : DumpReading) (line : String) : DumpReading :=
  match line.toList with
  | '#' :: digits => { reading with times := reading.times ++ [Nat.ofDigitChars 10 digits 0] }
  | '0' :: code => reading.assign false (String.ofList code)
  | '1' :: code => reading.assign true (String.ofList code)
  | _ =>
    if line = "$dumpvars" then { reading with dumping := true }
    else if line = "$end" then { reading with dumping := false }
    else reading

/-- Reads a line. -/
def readLine (reading : DumpReading) (line : String) : DumpReading :=
  if reading.defined then reading.readChange line else reading.readDeclaration line

/-- Reads a text. -/
def ofText (text : String) : DumpReading :=
  (Text.linesOf text).foldl readLine {}

/-- The changes of a signal. -/
def changesOf (reading : DumpReading) (name : String) : List DumpChange :=
  reading.changes.filter fun change => change.name = name

/-- The last value that a signal was given at a time or before. -/
def valueAt? (reading : DumpReading) (name : String) (time : Nat) : Option Bool :=
  ((reading.changesOf name).filter fun change => change.time ≤ time).getLast?.map DumpChange.value

/-- The times at which a signal changes after the values at the start. -/
def changeTimes (reading : DumpReading) (name : String) : List Nat :=
  ((reading.changesOf name).filter fun change => !change.initial).map DumpChange.time

end DumpReading

/-- The signals with their codes, numbered from `index` on. -/
def coded (index : Nat) : List (String × Trace) → List (String × CodedTrace)
  | [] => []
  | (name, trace) :: signals =>
    (name, ⟨String.ofList (code index), trace⟩) :: coded (index + 1) signals

/-- What is read from the lines of a sample. -/
def sampleChanges (signals : List (String × CodedTrace)) (index time : Nat) : List DumpChange :=
  (signals.filter fun signal => signal.2.changes index).map fun signal =>
    ⟨time, signal.1, signal.2.trace.values[index]?.getD false, index == 0⟩

/-- What is read from the lines of consecutive samples. -/
def valueChanges (signals : List (String × CodedTrace)) (index : Nat) : List Nat → List DumpChange
  | [] => []
  | time :: times => sampleChanges signals index time ++ valueChanges signals (index + 1) times

/-- The times that are written for consecutive samples. -/
def valueTimes (signals : List (String × CodedTrace)) (index : Nat) : List Nat → List Nat
  | [] => []
  | time :: times =>
    (if signals.any fun signal => signal.2.changes index then [time] else []) ++
      valueTimes signals (index + 1) times

open DumpReading

section Values

variable {reading : DumpReading} {signals : List (String × CodedTrace)}

/-- The line of a time is read back. -/
theorem readLine_time (defined : reading.defined = true) (time : Nat) :
    reading.readLine ("#" ++ toString time) =
      { reading with times := reading.times ++ [time] } := by
  have line : ("#" ++ toString time).toList = '#' :: Nat.toDigits 10 time := by
    rw [String.toList_append]
    exact congrArg ('#' :: ·) Nat.toList_repr
  rw [readLine, if_pos defined, readChange, line]
  simp only [Nat.ofDigitChars_ten_toDigits]

theorem readLine_dumpvars (defined : reading.defined = true) :
    reading.readLine "$dumpvars" = { reading with dumping := true } := by
  rw [readLine, if_pos defined]
  rfl

theorem readLine_end (defined : reading.defined = true) :
    reading.readLine "$end" = { reading with dumping := false } := by
  rw [readLine, if_pos defined]
  rfl

/-- **The line of a sample is read back** as the value of its signal at the last time. -/
theorem readLine_value (defined : reading.defined = true) {name : String} {coded : CodedTrace}
    (known : reading.codes.lookup coded.code = some name) (index : Nat) :
    reading.readLine (coded.line index) =
      { reading with
        changes := reading.changes ++ [⟨reading.times.getLastD 0, name,
          coded.trace.values[index]?.getD false, reading.dumping⟩] } := by
  rw [readLine, if_pos defined, readChange]
  cases value : coded.trace.values[index]?.getD false with
  | false =>
      have line : (coded.line index).toList = '0' :: coded.code.toList := by
        rw [CodedTrace.line, value, String.toList_append]
        rfl
      rw [line]
      simp only [DumpReading.assign, String.ofList_toList, known]
  | true =>
      have line : (coded.line index).toList = '1' :: coded.code.toList := by
        rw [CodedTrace.line, value, String.toList_append]
        rfl
      rw [line]
      simp only [DumpReading.assign, String.ofList_toList, known]

/-- The lines of samples are read back one after the other. -/
theorem foldl_lines (defined : reading.defined = true)
    (known : ∀ signal ∈ signals, reading.codes.lookup signal.2.code = some signal.1) (index : Nat) :
    (signals.map fun signal => signal.2.line index).foldl readLine reading =
      { reading with
        changes := reading.changes ++ signals.map fun signal =>
          ⟨reading.times.getLastD 0, signal.1, signal.2.trace.values[index]?.getD false,
            reading.dumping⟩ } := by
  induction signals generalizing reading with
  | nil => rw [List.map_nil, List.map_nil, List.append_nil, List.foldl_nil]
  | cons signal signals ih =>
      rw [List.map_cons, List.foldl_cons, readLine_value defined (known signal List.mem_cons_self),
        ih]
      · rw [List.map_cons, List.append_assoc]
        rfl
      · exact defined
      · exact fun other member => known other (List.mem_cons_of_mem _ member)

/-- **The lines of a moment are read back**: the time, and then the values, which at the first
moment stand between `$dumpvars` and `$end`. -/
theorem foldl_changedLines (defined : reading.defined = true) (dumped : reading.dumping = false)
    (known : ∀ signal ∈ signals, reading.codes.lookup signal.2.code = some signal.1)
    (index time : Nat) :
    (("#" ++ toString time) ::
      if index = 0 then
        "$dumpvars" :: (signals.map Prod.snd).map (CodedTrace.line index) ++ ["$end"]
      else (signals.map Prod.snd).map (CodedTrace.line index)).foldl readLine reading =
      { reading with
        times := reading.times ++ [time]
        changes := reading.changes ++ signals.map fun signal =>
          ⟨time, signal.1, signal.2.trace.values[index]?.getD false, index == 0⟩ } := by
  have lines : (signals.map Prod.snd).map (CodedTrace.line index) =
      signals.map fun signal => signal.2.line index := List.map_map
  rw [List.foldl_cons, readLine_time defined, lines]
  by_cases start : index = 0
  · rw [if_pos start, List.cons_append, List.foldl_cons, readLine_dumpvars, List.foldl_append,
      foldl_lines, List.foldl_cons, readLine_end, List.foldl_nil]
    · rw [List.getLastD_concat, dumped, start]
      rfl
    · exact defined
    · exact defined
    · exact known
    · exact defined
  · rw [if_neg start, foldl_lines]
    · rw [List.getLastD_concat, dumped, beq_false_of_ne start]
    · exact defined
    · exact known

/-- **The lines of a sample are read as its changes.** -/
theorem foldl_sampleLines (defined : reading.defined = true) (dumped : reading.dumping = false)
    (known : ∀ signal ∈ signals, reading.codes.lookup signal.2.code = some signal.1)
    (index time : Nat) :
    (sampleLines (signals.map Prod.snd) index time).foldl readLine reading =
      { reading with
        times := reading.times ++
          if signals.any fun signal => signal.2.changes index then [time] else []
        changes := reading.changes ++ sampleChanges signals index time } := by
  have changed : (signals.map Prod.snd).filter (CodedTrace.changes index) =
      (signals.filter fun signal => signal.2.changes index).map Prod.snd := List.filter_map
  have knownChanged : ∀ signal ∈ signals.filter (fun signal => signal.2.changes index),
      reading.codes.lookup signal.2.code = some signal.1 :=
    fun signal member => known signal (List.mem_of_mem_filter member)
  rw [sampleLines, changed, sampleChanges]
  cases some : signals.filter fun signal => signal.2.changes index with
  | nil =>
      have noChange : (signals.any fun signal => signal.2.changes index) = false := by
        rw [Bool.eq_false_iff]
        intro change
        obtain ⟨signal, member, changes⟩ := List.any_eq_true.mp change
        exact List.filter_eq_nil_iff.mp some signal member changes
      rw [noChange]
      simp only [List.map_nil, List.foldl_nil, List.append_nil, Bool.false_eq_true, ↓reduceIte]
  | cons first others =>
      have change : (signals.any fun signal => signal.2.changes index) = true := by
        have member : first ∈ signals.filter fun signal => signal.2.changes index :=
          some ▸ List.mem_cons_self
        exact List.any_eq_true.mpr ⟨first, List.mem_filter.mp member⟩
      rw [some] at knownChanged
      rw [change, if_pos rfl]
      exact foldl_changedLines defined dumped knownChanged index time

/-- **The lines of consecutive samples are read as their changes.** -/
theorem foldl_valueLines (defined : reading.defined = true) (dumped : reading.dumping = false)
    (known : ∀ signal ∈ signals, reading.codes.lookup signal.2.code = some signal.1)
    (index : Nat) (times : List Nat) :
    (valueLines (signals.map Prod.snd) index times).foldl readLine reading =
      { reading with
        times := reading.times ++ valueTimes signals index times
        changes := reading.changes ++ valueChanges signals index times } := by
  induction times generalizing reading index with
  | nil =>
      rw [valueLines, valueTimes, valueChanges, List.append_nil, List.append_nil, List.foldl_nil]
  | cons time times ih =>
      rw [valueLines, List.foldl_append, foldl_sampleLines defined dumped known, ih]
      · rw [valueTimes, valueChanges, List.append_assoc, List.append_assoc]
      · exact defined
      · exact dumped
      · exact known

end Values

end MiniVerilog.Waveform
