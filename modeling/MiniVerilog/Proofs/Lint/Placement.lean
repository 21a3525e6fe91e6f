import MiniVerilog.Diagnostic.Render
import MiniVerilog.Proofs.Lint.Balance

/-! # Kinds and lines of diagnostics

A report keeps errors apart from warnings, as their codes say, and every diagnostic is on a line
that the text has (`MiniVerilog.Lint.Report.ofSource_wellPlaced`). For what is found on a line this
is the line itself. What is found at the end of a text is on the last line, which exists since a
module was opened on some line, or on the line that a balance remembers, which is the line of a
delimiter as soon as the depth is not 0.
-/

namespace MiniVerilog.Lint

namespace Report

section GoesOn

variable {found : List (Nat × Finding)} {report : Report} {diagnostic : Diagnostic}

theorem GoesOn.isError_of_mem (goesOn : GoesOn found {} report)
    (member : diagnostic ∈ report.errors) : diagnostic.isError = true := by
  rw [goesOn.errors] at member
  exact (List.mem_filter.mp member).2

/-- No errors are among the warnings. -/
theorem GoesOn.isError_eq_false_of_mem (goesOn : GoesOn found {} report)
    (member : diagnostic ∈ report.warnings) : diagnostic.isError = false := by
  rw [goesOn.warnings] at member
  have kept := (List.mem_filter.mp member).2
  rwa [Bool.not_eq_true'] at kept

/-- A diagnostic is as grave as its code says. -/
theorem GoesOn.severity_eq_category (goesOn : GoesOn found {} report)
    (member : diagnostic ∈ report.errors ++ report.warnings) :
    diagnostic.severity = diagnostic.code.category := by
  obtain ⟨entry, -, rfl⟩ := goesOn.exists_of_mem member
  rfl

end GoesOn

end Report

/-- A delimiter has the line of its sign. -/
theorem Delimiter.line_eq {α : Type} [DecidableEq α] {openers : List α} {closer sign : α}
    {line : Nat} {delimiter : Delimiter} (found : of? openers closer line sign = some delimiter) :
    delimiter.line = line := by
  unfold of? at found
  split at found
  · exact (congrArg Delimiter.line (Option.some.inj found)).symm
  · split at found
    · exact (congrArg Delimiter.line (Option.some.inj found)).symm
    · cases found

namespace Family

variable {family : Family} {line : Nat} {delimiter : Delimiter}

/-- A delimiter that is a character has the line of the character. -/
theorem line_of_ofChar? {c : Char} (found : family.ofChar? line c = some delimiter) :
    delimiter.line = line := by
  cases family with
  | brackets | parentheses => exact Delimiter.line_eq found
  | blocks | cases => cases found

/-- A delimiter that is a word has the line of the word. -/
theorem line_of_ofWord? {word : String} (found : family.ofWord? line word = some delimiter) :
    delimiter.line = line := by
  cases family with
  | brackets | parentheses => cases found
  | blocks | cases => exact Delimiter.line_eq found

/-- The delimiters on a line have its number. -/
theorem line_of_mem_onLine {text : List Char} (member : delimiter ∈ family.onLine line text) :
    delimiter.line = line := by
  rcases List.mem_append.mp member with character | word
  · obtain ⟨c, -, found⟩ := List.mem_filterMap.mp character
    exact line_of_ofChar? found
  · obtain ⟨place, -, found⟩ := List.mem_filterMap.mp word
    exact line_of_ofWord? found

/-- The delimiters on consecutive lines have the numbers of these lines. -/
theorem line_of_mem_onLines {lines : List (List Char)}
    (member : delimiter ∈ family.onLines line lines) :
    line ≤ delimiter.line ∧ delimiter.line < line + lines.length := by
  induction lines generalizing line with
  | nil => cases member
  | cons text following ih =>
      rw [List.length_cons]
      rcases List.mem_append.mp member with here | later
      · have same := line_of_mem_onLine here
        omega
      · have bounds := ih later
        omega

end Family

/-- What is left open at the end of a text is a module, or a family whose depth is not 0. -/
theorem Survey.open_of_mem_leftOpen {survey : Survey} {lastLine : Nat} {entry : Nat × Finding}
    (member : entry ∈ survey.leftOpen lastLine) :
    entry.1 = lastLine ∧ survey.depth ≠ 0 ∨
      ∃ family : Family, entry.1 = (family.balance survey).since ∧
        (family.balance survey).depth ≠ 0 := by
  simp only [leftOpen, List.mem_append, mem_findingUnless, decide_eq_false_iff_not] at member
  rcases member with modules | brackets | parentheses | blocks | cases
  · exact .inl ⟨congrArg Prod.fst modules.2, modules.1⟩
  · exact .inr ⟨.brackets, congrArg Prod.fst brackets.2, brackets.1⟩
  · exact .inr ⟨.parentheses, congrArg Prod.fst parentheses.2, parentheses.1⟩
  · exact .inr ⟨.blocks, congrArg Prod.fst blocks.2, blocks.1⟩
  · exact .inr ⟨.cases, congrArg Prod.fst cases.2, fun settled => cases.1 (Int.le_of_eq settled)⟩

/-- **A balance whose depth is not 0 remembers a line of the text.** -/
theorem Family.since_ofSource (family : Family) {source : String}
    (unbalanced : (family.balance (Survey.ofSource source)).depth ≠ 0) :
    1 ≤ (family.balance (Survey.ofSource source)).since ∧
      (family.balance (Survey.ofSource source)).since ≤ (Text.lines source.toList).length := by
  rw [family.balance_ofSource] at unbalanced ⊢
  have some : family.inSource source ≠ [] := by
    intro none
    rw [none] at unbalanced
    exact unbalanced rfl
  obtain ⟨index, delimiter, found, -, since⟩ := Balance.exists_isLastDeparture some
  have bounds := line_of_mem_onLines (List.mem_of_getElem? found)
  rw [length_cleanLines] at bounds
  rw [since]
  omega

/-- A text without lines opens no module. -/
theorem Survey.length_lines_pos {source : String} (inside : (ofSource source).depth ≠ 0) :
    1 ≤ (Text.lines source.toList).length := by
  refine List.length_pos_iff.mpr fun none => inside ?_
  rw [ofSource, none]
  rfl

/-- A diagnostic is on a line of a text, and this line is shown with it, whatever the text is
called. -/
structure PlacedIn (source : String) (diagnostic : Diagnostic) : Prop where
  first : 1 ≤ diagnostic.line
  last : diagnostic.line ≤ (Text.linesOf source).length
  shown : ∃ text, (Text.linesOf source)[diagnostic.line - 1]? = some text ∧
    ∀ name, SourceFile.line? ⟨name, source⟩ diagnostic.line = some text

/-- A diagnostic is placed in a text if its line is one of the text. -/
theorem PlacedIn.of_bounds {source : String} {diagnostic : Diagnostic} (first : 1 ≤ diagnostic.line)
    (last : diagnostic.line ≤ (Text.linesOf source).length) : PlacedIn source diagnostic := by
  have inside : diagnostic.line - 1 < (Text.linesOf source).length := by omega
  refine ⟨first, last, _, List.getElem?_eq_getElem inside, fun name => ?_⟩
  rw [SourceFile.line?, if_neg (Nat.ne_of_gt first), List.getElem?_eq_getElem inside]

namespace Report

/-- The diagnostics of a report are of the kind that their codes say, errors apart from warnings,
and are on lines of the text. -/
structure WellPlaced (source : String) (report : Report) : Prop where
  errors : ∀ diagnostic ∈ report.errors,
    diagnostic.severity = .error ∧ diagnostic.code.category = .error
  warnings : ∀ diagnostic ∈ report.warnings,
    diagnostic.severity = .warning ∧ diagnostic.code.category = .warning
  lines : ∀ diagnostic ∈ report.errors ++ report.warnings, PlacedIn source diagnostic

/-- **Every diagnostic is on a line of the text.** Those about what stays open have the line of a
delimiter, or the last line. -/
theorem line_ofSource {source : String} {diagnostic : Diagnostic}
    (reported : diagnostic ∈ (ofSource source).errors ++ (ofSource source).warnings) :
    1 ≤ diagnostic.line ∧ diagnostic.line ≤ (Text.lines source.toList).length := by
  obtain ⟨found, goesOn, known⟩ := ofSource_goesOn source
  obtain ⟨⟨line, finding⟩, member, rfl⟩ := goesOn.exists_of_mem reported
  change 1 ≤ line ∧ line ≤ _
  rcases List.mem_append.mp member with onLine | atEnd
  · obtain ⟨index, text, inside, rfl, -⟩ := known _ onLine
    have bound := (List.getElem?_eq_some_iff.mp inside).1
    rw [length_cleanLines] at bound
    omega
  · rcases Survey.open_of_mem_leftOpen atEnd with ⟨rfl, inside⟩ | ⟨family, rfl, unbalanced⟩
    · have some := Survey.length_lines_pos inside
      omega
    · exact family.since_ofSource unbalanced

/-- **Every diagnostic is of its kind and on a line of the text.** -/
theorem ofSource_wellPlaced (source : String) : (ofSource source).WellPlaced source := by
  obtain ⟨found, goesOn, -⟩ := ofSource_goesOn source
  constructor
  case errors =>
    intro diagnostic member
    have severity : diagnostic.severity = .error := eq_of_beq (goesOn.isError_of_mem member)
    have category := goesOn.severity_eq_category (List.mem_append_left _ member)
    exact ⟨severity, category.symm.trans severity⟩
  case warnings =>
    intro diagnostic member
    have severity : diagnostic.severity = .warning := by
      have noError := goesOn.isError_eq_false_of_mem member
      cases severity : diagnostic.severity with
      | warning => rfl
      | error => rw [Diagnostic.isError, severity] at noError; cases noError
    have category := goesOn.severity_eq_category (List.mem_append_right _ member)
    exact ⟨severity, category.symm.trans severity⟩
  case lines =>
    intro diagnostic member
    have bounds := line_ofSource member
    refine .of_bounds bounds.1 ?_
    rw [Text.linesOf, List.length_map]
    exact bounds.2

end Report

end MiniVerilog.Lint
