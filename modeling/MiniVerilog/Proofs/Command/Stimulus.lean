import MiniVerilog.Command.Stimulus
import MiniVerilog.Proofs.Simulation.Folding

/-! # Stimulus that is read back

Clocks and drives that are written for the command line are read as themselves, whatever their
numbers are; a name may hold any character but the one that ends it. No clock is read that has no
name or never toggles (`MiniVerilog.stimulus_readsBack`).
-/

namespace MiniVerilog

/-- A text is split at the first place where a character stands. -/
theorem splitAt?_eq {mark : Char} {text before after : String}
    (split : text.toList = before.toList ++ mark :: after.toList) (noMark : mark ∉ before.toList) :
    splitAt? mark text = some (before, after) := by
  simp only [splitAt?, split, Text.takeWhile_mark noMark, Text.dropWhile_mark noMark,
    String.ofList_toList]

theorem dropPlus_eq_self {text : List Char} (noPlus : '+' ∉ text) : dropPlus text = text := by
  unfold dropPlus
  split
  · exact absurd List.mem_cons_self noPlus
  · rfl

/-- A number of 64 bits is read from its decimal text. -/
theorem stepCount?_toString {number : Nat} (bound : number < 2 ^ 64) :
    stepCount? (toString number) = some number := by
  have digit : ∀ c ∈ Nat.toDigits 10 number, c.isDigit = true := fun c =>
    Nat.isDigit_of_mem_toDigits (by decide) (by decide)
  have noPlus : '+' ∉ Nat.toDigits 10 number := fun member =>
    absurd (digit '+' member) (by decide)
  have nonempty : (Nat.toDigits 10 number).isEmpty = false :=
    List.isEmpty_eq_false_iff.mpr Nat.toDigits_ne_nil
  have noOther : (Nat.toDigits 10 number).any (fun c => !c.isDigit) = false := by
    rw [List.any_eq_false]
    intro c member
    rw [digit c member]
    exact Bool.false_ne_true
  have fits : number ≤ maxCount := Nat.le_of_lt_succ bound
  rw [stepCount?, Nat.toString_eq_repr, Nat.toList_repr, dropPlus_eq_self noPlus]
  simp only [nonempty, noOther, Bool.or_false, Bool.false_eq_true, ↓reduceIte,
    Literal.digits?_toDigits]
  exact Option.filter_some_pos (decide_eq_true fits)

/-- A value that is written in decimal is read as itself, also the least one. -/
theorem signedValue?_toString (value : Value) :
    signedValue? (toString value.toInt) = some value :=
  Expression.signedLiteral?_toString value

/-- The decimal text of a value has digits and perhaps a minus sign. -/
theorem Value.mem_toString {value : Value} {c : Char}
    (member : c ∈ (toString value.toInt).toList) : c ∈ '-' :: decimalDigits := by
  have written : value.IsWritten (toString value.toInt).toList := value.isWritten
  generalize (toString value.toInt).toList = text at written member
  cases written with
  | plain number => exact List.mem_cons_of_mem _ (mem_decimalDigits_of_mem member)
  | negative number =>
      exact List.mem_cons.mpr ((List.mem_cons.mp member).imp_right mem_decimalDigits_of_mem)

/-- **The text of a drive is read back.** -/
theorem Drive.ofText_text {drive : Drive} (named : drive.signal ≠ "")
    (noMark : '=' ∉ drive.signal.toList) (bound : drive.time < 2 ^ 64) :
    Drive.ofText drive.text = .ok drive := by
  have signal : splitAt? '=' drive.text = some (drive.signal,
      toString drive.value.toInt ++ "@" ++ toString drive.time) := by
    refine splitAt?_eq ?_ noMark
    rw [Drive.text]
    simp only [String.toList_append, List.append_assoc]
    rfl
  have value : splitAt? '@' (toString drive.value.toInt ++ "@" ++ toString drive.time) =
      some (toString drive.value.toInt, toString drive.time) := by
    refine splitAt?_eq ?_ fun member => ?_
    · simp only [String.toList_append, List.append_assoc]
      rfl
    · exact absurd (Value.mem_toString member) (by decide)
  rw [Drive.ofText, signal]
  simp only [value, if_neg named, signedValue?_toString, stepCount?_toString bound]
  rfl

/-- **The text of a clock is read back.** -/
theorem ClockStimulus.ofText_text {clock : ClockStimulus} (named : clock.signal ≠ "")
    (noMark : ':' ∉ clock.signal.toList) (toggles : 1 ≤ clock.halfPeriod)
    (bound : clock.halfPeriod < 2 ^ 64) :
    ClockStimulus.ofText clock.text = .ok clock := by
  have signal : splitAt? ':' clock.text = some (clock.signal, toString clock.halfPeriod) := by
    refine splitAt?_eq ?_ noMark
    rw [ClockStimulus.text]
    simp only [String.toList_append, List.append_assoc]
    rfl
  rw [ClockStimulus.ofText, signal]
  simp only [stepCount?_toString bound]
  rw [make, if_neg named, if_neg (Nat.ne_of_gt toggles)]

/-- A clock that is made has a name and toggles. -/
theorem ClockStimulus.of_make {signal : String} {halfPeriod : Nat} {clock : ClockStimulus}
    (made : make signal halfPeriod = .ok clock) : clock.signal ≠ "" ∧ 1 ≤ clock.halfPeriod := by
  unfold make at made
  split at made
  · cases made
  · split at made
    · cases made
    · rename_i named toggles
      cases made
      exact ⟨named, Nat.one_le_iff_ne_zero.mpr toggles⟩

/-- A clock that was read has a name and toggles. -/
theorem ClockStimulus.of_ofText {text : String} {clock : ClockStimulus}
    (read : ClockStimulus.ofText text = .ok clock) : clock.signal ≠ "" ∧ 1 ≤ clock.halfPeriod := by
  unfold ClockStimulus.ofText at read
  split at read
  · exact of_make read
  · split at read
    · exact of_make read
    · cases read

/-- **Stimulus is read back from its text**, whatever the numbers are, unless a name ends early; and
every clock that is read has a name and toggles. -/
theorem stimulus_readsBack :
    (∀ drive : Drive, drive.signal ≠ "" → '=' ∉ drive.signal.toList → drive.time < 2 ^ 64 →
        Drive.ofText drive.text = .ok drive) ∧
      (∀ clock : ClockStimulus, clock.signal ≠ "" → ':' ∉ clock.signal.toList →
        1 ≤ clock.halfPeriod → clock.halfPeriod < 2 ^ 64 →
          ClockStimulus.ofText clock.text = .ok clock) ∧
      ∀ text clock, ClockStimulus.ofText text = .ok clock →
        clock.signal ≠ "" ∧ 1 ≤ clock.halfPeriod :=
  ⟨fun _ named noMark bound => Drive.ofText_text named noMark bound,
    fun _ named noMark toggles bound => ClockStimulus.ofText_text named noMark toggles bound,
    fun _ _ read => ClockStimulus.of_ofText read⟩

/-- The least value at the last time, and the largest half period, on names with the other marks. -/
theorem stimulus_readsBack_extremes :
    Drive.ofText "a:b@c=-9223372036854775808@18446744073709551615" =
        .ok ⟨2 ^ 64 - 1, "a:b@c", Int64.minValue⟩ ∧
      ClockStimulus.ofText "a=b@c:18446744073709551615" = .ok ⟨"a=b@c", 2 ^ 64 - 1⟩ ∧
      ("a=b@c" ≠ "" ∧ 1 ≤ 2 ^ 64 - 1) := by
  obtain ⟨drives, clocks, read⟩ := stimulus_readsBack
  have drive := drives ⟨2 ^ 64 - 1, "a:b@c", Int64.minValue⟩ (by decide) (by decide) (by decide)
  have clock := clocks ⟨"a=b@c", 2 ^ 64 - 1⟩ (by decide) (by decide) (by decide) (by decide)
  exact ⟨drive, clock, read _ _ clock⟩

end MiniVerilog
