import MiniVerilog.Proofs.Lint.Nesting

/-! # Where the linter finds something

A clean line adds findings of two kinds to a report: those about a word that opens or ends a
module, which have the column of that word, and those about a segment, which have none. The end of a
text adds what is still open. So the whole report of a text is known
(`MiniVerilog.Lint.Report.ofSource_goesOn`).
-/

namespace MiniVerilog.Lint

/-- The words that open or end a module. -/
def moduleWords : List String :=
  ["module", "macromodule", "endmodule"]

/-- The codes of the findings about words of a line. -/
def wordCodes : List DiagnosticCode :=
  [.nestedModule, .invalidModuleName, .missingPortList, .unmatchedEndmodule]

/-- What can be found on a clean line. -/
inductive FoundOn (text : List Char) : Finding → Prop
  /-- Something is wrong with a module word. -/
  | word {finding : Finding} {place : PlacedWord} (inside : place ∈ placedWords 0 text)
      (opensOrEnds : place.word ∈ moduleWords) (known : finding.code ∈ wordCodes)
      (column : finding.column? = some (place.offset + 1)) : FoundOn text finding
  /-- Something is wrong with a segment. -/
  | segment {finding : Finding} (known : finding.code ∈ Survey.segmentCodes) : FoundOn text finding

/-- What is found on a line has the code of a finding about words or segments. -/
theorem FoundOn.code_mem {text : List Char} {finding : Finding} (found : FoundOn text finding) :
    finding.code ∈ wordCodes ++ Survey.segmentCodes := by
  cases found with
  | word _ _ known _ => exact List.mem_append_left _ known
  | segment known => exact List.mem_append_right _ known

/-- What can be found about a line with a clean text. -/
def FoundAt (line : Nat) (text : List Char) (number : Nat) (finding : Finding) : Prop :=
  number = line ∧ FoundOn text finding

/-- What can be found about consecutive clean lines, the first of which has the given number. -/
def FoundAmong (line : Nat) (lines : List (List Char)) (number : Nat) (finding : Finding) : Prop :=
  ∃ index text, lines[index]? = some text ∧ FoundAt (line + index) text number finding

/-- A finding about a segment has no column. -/
theorem column?_of_segmentCodes {finding : Finding} (known : finding.code ∈ Survey.segmentCodes) :
    finding.column? = none := by
  cases finding with
  | nestedModule | invalidModuleName | missingPortList | unmatchedEndmodule =>
      exact absurd known (by simp [Finding.code, Survey.segmentCodes])
  | _ => rfl

namespace Survey

/-- From the earlier survey to the later one findings were added, all of them allowed about their
lines. -/
def Adds (allowed : Nat → Finding → Prop) (earlier later : Survey) : Prop :=
  ∃ found, Report.GoesOn found earlier.report later.report ∧
    ∀ entry ∈ found, allowed entry.1 entry.2

section Adds

variable {allowed : Nat → Finding → Prop} {first second third : Survey}

theorem Adds.nothing (errors : second.report.errors = first.report.errors)
    (warnings : second.report.warnings = first.report.warnings) : Adds allowed first second :=
  ⟨[], .none errors warnings, List.forall_mem_nil _⟩

/-- What is added in two steps is allowed if it is in each. -/
theorem Adds.trans (adds : Adds allowed first second) (further : Adds allowed second third) :
    Adds allowed first third := by
  obtain ⟨found, goesOn, known⟩ := adds
  obtain ⟨others, goesOnThen, knownThen⟩ := further
  exact ⟨found ++ others, goesOn.trans goesOnThen, List.forall_mem_append.mpr ⟨known, knownThen⟩⟩

/-- What is allowed may be described more weakly. -/
theorem Adds.mono {weaker : Nat → Finding → Prop} (adds : Adds allowed first second)
    (implies : ∀ line finding, allowed line finding → weaker line finding) :
    Adds weaker first second := by
  obtain ⟨found, goesOn, known⟩ := adds
  exact ⟨found, goesOn, fun entry member => implies _ _ (known entry member)⟩

/-- Findings about a line with known codes are allowed if those codes are. -/
theorem OnlyFinds.adds {codes : List DiagnosticCode} {line : Nat}
    (finds : OnlyFinds codes line first second)
    (known : ∀ finding : Finding, finding.code ∈ codes → allowed line finding) :
    Adds allowed first second := by
  obtain ⟨-, found, coded, goesOn⟩ := finds
  refine ⟨_, goesOn, fun entry member => ?_⟩
  obtain ⟨finding, inside, rfl⟩ := List.mem_map.mp member
  exact known finding (coded finding inside)

/-- What is added step by step is allowed if it is in each step. -/
theorem Adds.foldl {α : Type} {step : Survey → α → Survey} {entries : List α}
    (one : ∀ survey, ∀ entry ∈ entries, Adds allowed survey (step survey entry))
    (survey : Survey) : Adds allowed survey (entries.foldl step survey) :=
  List.foldlRecOn entries step (.nothing rfl rfl) fun before adds entry member =>
    adds.trans (one before entry member)

end Adds

theorem Enters.adds {allowed : Nat → Finding → Prop} {found : List (Nat × Finding)} {depth : Nat}
    {first second : Survey} (enters : Enters found depth first second)
    (known : ∀ entry ∈ found, allowed entry.1 entry.2) : Adds allowed first second :=
  ⟨found, enters.report, known⟩

section Words

variable {text : List Char} {place : PlacedWord} (inside : place ∈ placedWords 0 text)
  (opensOrEnds : place.word ∈ moduleWords) (survey : Survey) (line : Nat)

include inside opensOrEnds

/-- What a condition on a module word reports is found on its line. -/
theorem foundAt_findingUnless {holds : Bool} {finding : Finding} (known : finding.code ∈ wordCodes)
    (column : finding.column? = some (place.offset + 1)) :
    ∀ entry ∈ findingUnless holds line finding, FoundAt line text entry.1 entry.2 := by
  intro entry member
  rw [eq_of_mem_findingUnless member]
  exact ⟨rfl, .word inside opensOrEnds known column⟩

/-- Opening a module adds what can be found about the word and the name after it. -/
theorem openModule_adds :
    Adds (FoundAt line text) survey (survey.openModule line text place) := by
  refine (openModule_enters survey line text place).adds ?_
  unfold foundOpening
  simp only [List.forall_mem_append]
  refine ⟨⟨?_, ?_⟩, ?_⟩ <;>
    exact foundAt_findingUnless inside opensOrEnds line (by simp [wordCodes, Finding.code]) rfl

theorem closeModule_adds :
    Adds (FoundAt line text) survey (survey.closeModule line place) :=
  (closeModule_enters survey line place).adds
    (foundAt_findingUnless inside opensOrEnds line (by simp [wordCodes, Finding.code]) rfl)

end Words

/-- **A word adds what can be found about it.** Words that open or end no module add nothing. -/
theorem countWord_adds (line : Nat) (text : List Char) (survey : Survey) {place : PlacedWord}
    (inside : place ∈ placedWords 0 text) :
    Adds (FoundAt line text) survey (countWord line text survey place) := by
  unfold countWord
  split
  case h_7 opens => exact openModule_adds inside (by simp [moduleWords, opens]) survey line
  case h_8 opens => exact openModule_adds inside (by simp [moduleWords, opens]) survey line
  case h_9 ends => exact closeModule_adds inside (by simp [moduleWords, ends]) survey line
  all_goals exact .nothing rfl rfl

theorem countDelimiter_adds (line : Nat) (text : List Char) (survey : Survey) (c : Char) :
    Adds (FoundAt line text) survey (countDelimiter line survey c) := by
  unfold countDelimiter
  split <;> exact .nothing rfl rfl

/-- **What a line adds** is found on it. -/
theorem checkLine_adds (survey : Survey) (line : Nat) (text : List Char) :
    Adds (FoundAt line text) survey (survey.checkLine line text) := by
  have delimiters : Adds (FoundAt line text) survey (text.foldl (countDelimiter line) survey) :=
    .foldl (fun before c _ => countDelimiter_adds line text before c) survey
  have words (counted : Survey) : Adds (FoundAt line text) counted
      ((placedWords 0 text).foldl (countWord line text) counted) :=
    .foldl (fun before _ inside => countWord_adds line text before inside) counted
  have pieces := OnlyFinds.foldl (checkSegment_onlyFinds line) (segments text)
    ((placedWords 0 text).foldl (countWord line text) (text.foldl (countDelimiter line) survey))
  exact delimiters.trans ((words _).trans
    (pieces.adds fun finding known => ⟨rfl, .segment known⟩))

/-- What consecutive lines add is found on one of them. -/
theorem checkLines_adds (survey : Survey) (line : Nat) (lines : List (List Char)) :
    Adds (FoundAmong line lines) survey (survey.checkLines line lines) := by
  induction lines generalizing survey line with
  | nil => exact .nothing rfl rfl
  | cons text following ih =>
      have here : Adds (FoundAmong line (text :: following)) survey (survey.checkLine line text) :=
        (checkLine_adds survey line text).mono fun number finding found => ⟨0, text, rfl, found⟩
      refine here.trans ((ih (survey.checkLine line text) (line + 1)).mono ?_)
      rintro number finding ⟨index, other, inside, same, found⟩
      exact ⟨index + 1, other, inside, by omega, found⟩

/-- The survey of all lines of a source text. -/
def ofSource (source : String) : Survey :=
  checkLines {} 1 (cleanLines false (Text.lines source.toList))

end Survey

/-- The findings of a source text before its end, each found on its line. -/
theorem Report.ofSource_goesOn (source : String) :
    ∃ found, GoesOn (found ++ (Survey.ofSource source).leftOpen
        (max (Text.lines source.toList).length 1)) {} (Report.ofSource source) ∧
      ∀ entry ∈ found,
        FoundAmong 1 (cleanLines false (Text.lines source.toList)) entry.1 entry.2 := by
  obtain ⟨found, goesOn, known⟩ :=
    Survey.checkLines_adds {} 1 (cleanLines false (Text.lines source.toList))
  refine ⟨found, goesOn.trans ?_, known⟩
  rw [← length_cleanLines false]
  exact Survey.leftOpen_goesOn _ _

end MiniVerilog.Lint
