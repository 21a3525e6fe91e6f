import Mathlib.Data.List.Pairwise
import MiniVerilog.Diagnostic.Basic

/-! # Sorted diagnostics

Sorting puts diagnostics in the order of their lines, errors before warnings on a line, and leaves
diagnostics of one line and one severity in the order in which they were given
(`MiniVerilog.Diagnostic.sorted_sorts`). Diagnostics that are in order stay as they are.
-/

namespace MiniVerilog.Diagnostic

/-- A diagnostic may stand before another one: it is on an earlier line, or on the same line and
not a warning before an error. -/
def MayPrecede (first second : Diagnostic) : Prop :=
  first.line < second.line ∨
    first.line = second.line ∧ (second.severity = .error → first.severity = .error)

/-- The order that sorts diagnostics is by line, and on a line by severity. -/
theorem precedes_iff {first second : Diagnostic} :
    first.precedes second = true ↔ first.MayPrecede second := by
  have severities : (first.isError || !second.isError) = true ↔
      (second.severity = .error → first.severity = .error) := by
    rw [isError, isError, Bool.or_eq_true, beq_iff_eq, Bool.not_eq_true', beq_eq_false_iff_ne]
    exact imp_iff_or_not.symm
  rw [precedes, Bool.or_eq_true, Bool.and_eq_true, decide_eq_true_eq, beq_iff_eq, severities]
  rfl

/-- The order is transitive. -/
theorem MayPrecede.trans {first second third : Diagnostic} (before : first.MayPrecede second)
    (further : second.MayPrecede third) : first.MayPrecede third := by
  rcases before with earlier | ⟨same, errors⟩
  · rcases further with later | ⟨same, -⟩
    · exact .inl (Nat.lt_trans earlier later)
    · exact .inl (same ▸ earlier)
  · rcases further with later | ⟨sameThen, errorsThen⟩
    · exact .inl (same ▸ later)
    · exact .inr ⟨same.trans sameThen, errors ∘ errorsThen⟩

/-- Of two diagnostics one may precede the other. -/
theorem mayPrecede_total (first second : Diagnostic) :
    first.MayPrecede second ∨ second.MayPrecede first := by
  rcases Nat.lt_trichotomy first.line second.line with earlier | same | later
  · exact .inl (.inl earlier)
  · by_cases isError : first.severity = .error
    · exact .inl (.inr ⟨same, fun _ => isError⟩)
    · exact .inr (.inr ⟨same.symm, fun other => absurd other isError⟩)
  · exact .inr (.inl later)

theorem precedes_trans (first second third : Diagnostic) (before : first.precedes second = true)
    (further : second.precedes third = true) : first.precedes third = true :=
  precedes_iff.mpr ((precedes_iff.mp before).trans (precedes_iff.mp further))

theorem precedes_total (first second : Diagnostic) :
    (first.precedes second || second.precedes first) = true := by
  rw [Bool.or_eq_true, precedes_iff, precedes_iff]
  exact mayPrecede_total first second

/-- The diagnostic is of a line and a severity. -/
def isOf (line : Nat) (severity : Severity) (diagnostic : Diagnostic) : Bool :=
  diagnostic.line = line ∧ diagnostic.severity = severity

/-- A list holds given diagnostics in order, and those of one line and one severity in the order in
which they were given. -/
structure Sorts (given listed : List Diagnostic) : Prop where
  perm : listed.Perm given
  ordered : listed.Pairwise MayPrecede
  stable : ∀ line severity, listed.filter (isOf line severity) = given.filter (isOf line severity)

/-- Diagnostics of one line and severity may stand in any order. -/
theorem pairwise_filter_isOf (given : List Diagnostic) (line : Nat) (severity : Severity) :
    (given.filter (isOf line severity)).Pairwise fun first second =>
      first.precedes second = true := by
  refine List.pairwise_of_forall_mem_list fun first inside second insideToo => ?_
  have here := of_decide_eq_true (List.mem_filter.mp inside).2
  have there := of_decide_eq_true (List.mem_filter.mp insideToo).2
  exact precedes_iff.mpr (.inr ⟨here.1.trans there.1.symm, fun isError =>
    here.2.trans (there.2.symm.trans isError)⟩)

/-- **Sorting is stable.** -/
theorem sorted_sorts (given : List Diagnostic) : Sorts given (sorted given) := by
  have perm : (sorted given).Perm given := List.mergeSort_perm given precedes
  refine ⟨perm, ?_, fun line severity => ?_⟩
  · exact (List.pairwise_mergeSort precedes_trans precedes_total given).imp precedes_iff.mp
  · have kept : (given.filter (isOf line severity)).Sublist (sorted given) :=
      List.sublist_mergeSort precedes_trans precedes_total
        (pairwise_filter_isOf given line severity) List.filter_sublist
    have sublist := kept.filter (isOf line severity)
    simp only [List.filter_filter, Bool.and_self] at sublist
    exact (sublist.eq_of_length (perm.filter _).length_eq.symm).symm

/-- Diagnostics that are in order stay as they are. -/
theorem sorted_eq_self {given : List Diagnostic} (ordered : given.Pairwise MayPrecede) :
    sorted given = given :=
  List.mergeSort_of_pairwise (ordered.imp precedes_iff.mpr)

end MiniVerilog.Diagnostic
