import MiniVerilog.Lint.Survey

/-! # What the linter adds to a report

Every part of the linter adds diagnostics after those that a report has, each for a finding about
the line that is looked at. A segment of a line changes nothing but the report, and it finds nothing
about modules, ports or delimiters (`MiniVerilog.Lint.Survey.checkSegment_onlyFinds`). A word that
opens or ends a module changes the number of open modules and finds what is wrong with the word
(`MiniVerilog.Lint.Survey.openModule_enters`). The end of a text adds what is still open there
(`MiniVerilog.Lint.Survey.leftOpen_goesOn`).
-/

namespace MiniVerilog.Lint

namespace Report

/-- The diagnostics of findings about lines. -/
def diagnosticsOf (found : List (Nat × Finding)) : List Diagnostic :=
  found.map fun entry => entry.2.diagnostic entry.1

/-- The later report has the diagnostics of the earlier one and after them those of findings. -/
structure GoesOn (found : List (Nat × Finding)) (earlier later : Report) : Prop where
  errors : later.errors = earlier.errors ++ (diagnosticsOf found).filter Diagnostic.isError
  warnings : later.warnings =
    earlier.warnings ++ (diagnosticsOf found).filter fun diagnostic => !diagnostic.isError

section GoesOn

variable {found others : List (Nat × Finding)} {first second third : Report}

theorem GoesOn.none (errors : second.errors = first.errors)
    (warnings : second.warnings = first.warnings) : GoesOn [] first second :=
  ⟨errors.trans (List.append_nil _).symm, warnings.trans (List.append_nil _).symm⟩

theorem GoesOn.refl (report : Report) : GoesOn [] report report :=
  .none rfl rfl

theorem diagnosticsOf_append (found others : List (Nat × Finding)) :
    diagnosticsOf (found ++ others) = diagnosticsOf found ++ diagnosticsOf others :=
  List.map_append

/-- Findings are added one after the other. -/
theorem GoesOn.trans (goesOn : GoesOn found first second) (further : GoesOn others second third) :
    GoesOn (found ++ others) first third := by
  constructor
  · rw [further.errors, goesOn.errors, diagnosticsOf_append, List.filter_append, List.append_assoc]
  · rw [further.warnings, goesOn.warnings, diagnosticsOf_append, List.filter_append,
      List.append_assoc]

/-- A finding adds one diagnostic, to the errors or to the warnings. -/
theorem goesOn_find (report : Report) (line : Nat) (finding : Finding) :
    GoesOn [(line, finding)] report (report.find line finding) := by
  have one : diagnosticsOf [(line, finding)] = [finding.diagnostic line] := rfl
  unfold find
  by_cases isError : (finding.diagnostic line).isError = true
  · constructor
    · simp only [one, isError, ↓reduceIte, List.filter_cons, List.filter_nil]
    · simp only [one, isError, ↓reduceIte, List.filter_cons, Bool.not_true, Bool.false_eq_true,
        List.filter_nil, List.append_nil]
  · constructor
    · simp only [one, isError, Bool.false_eq_true, ↓reduceIte, List.filter_cons, List.filter_nil,
        List.append_nil]
    · simp only [one, isError, Bool.false_eq_true, ↓reduceIte, List.filter_cons, Bool.not_false,
        List.filter_nil]

/-- Every diagnostic of a report is for a finding. -/
theorem GoesOn.exists_of_mem {found : List (Nat × Finding)} {report : Report}
    (goesOn : GoesOn found {} report) {diagnostic : Diagnostic}
    (member : diagnostic ∈ report.errors ++ report.warnings) :
    ∃ entry ∈ found, entry.2.diagnostic entry.1 = diagnostic := by
  have inside : diagnostic ∈ diagnosticsOf found := by
    rcases List.mem_append.mp member with isError | isWarning
    · rw [goesOn.errors] at isError
      exact (List.mem_filter.mp isError).1
    · rw [goesOn.warnings] at isWarning
      exact (List.mem_filter.mp isWarning).1
  exact List.mem_map.mp inside

end GoesOn

/-- Collecting parameters finds nothing, whatever the atoms are. The induction is on the number of
atoms. -/
theorem collectParameterNames_goesOn (report : Report) (line : Nat) (isLocal : Bool)
    (atoms : List String) :
    GoesOn [] report (report.collectParameterNames line isLocal atoms).1 := by
  fun_induction collectParameterNames report line isLocal atoms with
  | case1 report name rest _ value added _ ih =>
      have one : GoesOn [] report added := .none rfl rfl
      exact one.trans ih
  | case2 report name rest _ value => exact .none rfl rfl
  | case3 => exact .refl _
  | case4 => exact .refl _

theorem collectParameters_goesOn (report : Report) (line : Nat) (isLocal : Bool)
    (atoms : List String) : GoesOn [] report (report.collectParameters line isLocal atoms).1 :=
  collectParameterNames_goesOn report line isLocal _

/-- Reading declarations adds no diagnostics. -/
theorem collect_goesOn (report : Report) (line : Nat) (atoms : List String) :
    GoesOn [] report (report.collect line atoms) := by
  fun_induction collect report line atoms with
  | case1 => exact .refl _
  | case2 report atom rest direction _ ih =>
      have ports : GoesOn [] report (report.collectPorts line direction rest).1 := .none rfl rfl
      exact ports.trans ih
  | case3 report atom rest _ _ ih =>
      exact (collectParameters_goesOn report line (atom == "localparam") rest).trans ih
  | case4 report atom rest _ _ ih => exact ih

end Report

namespace Survey

/-- The later survey differs from the earlier one in the report alone, to which findings about a
line were added, all with one of these codes. -/
structure OnlyFinds (codes : List DiagnosticCode) (line : Nat) (earlier later : Survey) :
    Prop where
  others : later = { earlier with report := later.report }
  found : ∃ found : List Finding, (∀ finding ∈ found, finding.code ∈ codes) ∧
    Report.GoesOn (found.map fun finding => (line, finding)) earlier.report later.report

section OnlyFinds

variable {codes others : List DiagnosticCode} {line : Nat} {first second third : Survey}

theorem OnlyFinds.of_report {report : Report} (goesOn : Report.GoesOn [] first.report report) :
    OnlyFinds codes line first { first with report := report } :=
  ⟨rfl, [], List.forall_mem_nil _, goesOn⟩

theorem OnlyFinds.refl (survey : Survey) : OnlyFinds codes line survey survey :=
  ⟨rfl, [], List.forall_mem_nil _, .refl _⟩

/-- Two steps that add findings of the same kind about a line add them one after the other. -/
theorem OnlyFinds.trans (finds : OnlyFinds codes line first second)
    (further : OnlyFinds codes line second third) : OnlyFinds codes line first third := by
  obtain ⟨same, found, known, goesOn⟩ := finds
  obtain ⟨sameThen, foundThen, knownThen, goesOnThen⟩ := further
  refine ⟨?_, found ++ foundThen, List.forall_mem_append.mpr ⟨known, knownThen⟩, ?_⟩
  · rw [sameThen, same]
  · rw [List.map_append]
    exact goesOn.trans goesOnThen

theorem onlyFinds_find (survey : Survey) (line : Nat) {finding : Finding}
    (known : finding.code ∈ codes) : OnlyFinds codes line survey (survey.find line finding) :=
  ⟨rfl, [finding], List.forall_mem_singleton.mpr known, Report.goesOn_find _ _ _⟩

/-- A step that depends on a condition may add findings either way. -/
theorem OnlyFinds.ite {condition : Prop} [Decidable condition]
    (finds : OnlyFinds codes line first second) (otherwise : OnlyFinds codes line first third) :
    OnlyFinds codes line first (if condition then second else third) := by
  split
  · exact finds
  · exact otherwise

/-- Steps that add findings of one kind do so together. -/
theorem OnlyFinds.foldl {α : Type} {step : Survey → α → Survey}
    (one : ∀ survey entry, OnlyFinds codes line survey (step survey entry)) (entries : List α)
    (survey : Survey) : OnlyFinds codes line survey (entries.foldl step survey) :=
  List.foldlRecOn entries step (.refl survey) fun before finds entry _ =>
    finds.trans (one before entry)

end OnlyFinds

/-- The codes of the findings about segments of a line. -/
def segmentCodes : List DiagnosticCode :=
  [.missingSemicolon, .missingAssignment, .invalidAlwaysBlock, .implicitSensitivity]

/-- The check of an assignment adds findings about segments only. -/
theorem checkAssign_onlyFinds (survey : Survey) (line : Nat) (segment : Segment) :
    OnlyFinds segmentCodes line survey (survey.checkAssign line segment) := by
  have ended : OnlyFinds segmentCodes line survey
      (if segment.terminated then survey else survey.find line .openAssign) :=
    .ite (.refl survey) (onlyFinds_find survey line List.mem_cons_self)
  unfold checkAssign
  simp only
  split
  · exact ended.trans (onlyFinds_find _ line (by decide))
  · exact ended.trans (.of_report (.none rfl rfl))

/-- The check of an always block adds findings about segments only. -/
theorem checkAlways_onlyFinds (survey : Survey) (line : Nat) (segment : List Char) :
    OnlyFinds segmentCodes line survey (survey.checkAlways line segment) := by
  have blockless (survey : Survey) :
      OnlyFinds segmentCodes line survey (survey.find line .invalidAlwaysBlock) :=
    onlyFinds_find survey line (by decide)
  have implicit (survey : Survey) :
      OnlyFinds segmentCodes line survey (survey.find line .implicitSensitivity) :=
    onlyFinds_find survey line (by decide)
  have headed : OnlyFinds segmentCodes line survey
      (if segment.contains '@' || (wordsOf segment).contains "begin" then survey
        else survey.find line .invalidAlwaysBlock) := .ite (.refl survey) (blockless survey)
  exact (headed.trans (.ite (implicit _) (.refl _))).trans (.of_report (.none rfl rfl))

/-- The check of a signal declaration adds findings about segments only. -/
theorem checkSignals_onlyFinds (survey : Survey) (line : Nat) (kind : SignalKind)
    (terminated : Bool) (rest : List String) :
    OnlyFinds segmentCodes line survey (survey.checkSignals line kind terminated rest) := by
  have ended : OnlyFinds segmentCodes line survey
      (if terminated then survey else survey.find line (.openDeclaration kind.spelling)) :=
    .ite (.refl survey) (onlyFinds_find survey line List.mem_cons_self)
  exact ended.trans (.of_report (.none rfl rfl))

/-- **A segment changes nothing but the report.** -/
theorem checkSegment_onlyFinds (line : Nat) (survey : Survey) (segment : Segment) :
    OnlyFinds segmentCodes line survey (checkSegment line survey segment) := by
  unfold checkSegment
  simp only
  refine OnlyFinds.trans ?_ (.of_report (Report.collect_goesOn _ line _))
  split
  · exact checkAssign_onlyFinds survey line segment
  · exact checkAlways_onlyFinds survey line segment.text
  · exact checkSignals_onlyFinds survey line .wire segment.terminated _
  · exact checkSignals_onlyFinds survey line .reg segment.terminated _
  · exact .refl survey

/-- What a condition reports about a line unless it holds. -/
def findingUnless (holds : Bool) (line : Nat) (finding : Finding) : List (Nat × Finding) :=
  if holds then [] else [(line, finding)]

theorem mem_findingUnless {holds : Bool} {line : Nat} {finding : Finding}
    {entry : Nat × Finding} :
    entry ∈ findingUnless holds line finding ↔ holds = false ∧ entry = (line, finding) := by
  cases holds <;> simp [findingUnless]

theorem eq_of_mem_findingUnless {holds : Bool} {line : Nat} {finding : Finding}
    {entry : Nat × Finding} (member : entry ∈ findingUnless holds line finding) :
    entry = (line, finding) :=
  (mem_findingUnless.mp member).2

/-- A condition adds its finding to the report unless it holds. -/
theorem findUnless_goesOn (survey : Survey) (holds : Bool) (line : Nat) (finding : Finding) :
    Report.GoesOn (findingUnless holds line finding) survey.report
      (survey.findUnless holds line finding).report := by
  unfold findingUnless findUnless
  split
  · exact .refl _
  · exact Report.goesOn_find _ line finding

/-- The later survey has a number of open modules, and findings were added to its report. What is
counted of delimiters is the same as in the earlier one. -/
structure Enters (found : List (Nat × Finding)) (depth : Nat) (earlier later : Survey) : Prop where
  depth : later.depth = depth
  report : Report.GoesOn found earlier.report later.report
  brackets : later.brackets = earlier.brackets
  parentheses : later.parentheses = earlier.parentheses
  blocks : later.blocks = earlier.blocks
  cases : later.cases = earlier.cases

section Enters

variable {found : List (Nat × Finding)} {depth : Nat} {first second : Survey}

/-- A condition that is checked after entering adds its finding to those before. -/
theorem Enters.findUnless (enters : Enters found depth first second) (holds : Bool) (line : Nat)
    (finding : Finding) :
    Enters (found ++ findingUnless holds line finding) depth first
      (second.findUnless holds line finding) := by
  have goesOn := enters.report.trans (findUnless_goesOn second holds line finding)
  have same : second.findUnless holds line finding =
      { second with report := (second.findUnless holds line finding).report } := by
    unfold Survey.findUnless
    split <;> rfl
  rw [same]
  exact ⟨enters.depth, goesOn, enters.brackets, enters.parentheses, enters.blocks, enters.cases⟩

/-- Naming a module reports a name that is none, and changes no counter. -/
theorem Enters.nameModule (enters : Enters found depth first second) (line column : Nat)
    (name : List Char) :
    Enters (found ++ findingUnless (isName (String.ofList name)) line (.invalidModuleName column))
      depth first (second.nameModule line column name) := by
  have finds := enters.findUnless (isName (String.ofList name)) line (.invalidModuleName column)
  unfold Survey.nameModule
  unfold Survey.findUnless at finds
  split
  · rename_i named
    rw [if_pos named] at finds
    split
    · exact ⟨finds.depth, ⟨finds.report.errors, finds.report.warnings⟩, finds.brackets,
        finds.parentheses, finds.blocks, finds.cases⟩
    · exact finds
  · rename_i unnamed
    rwa [if_neg unnamed] at finds

end Enters

/-- What is found about a word that opens a module. -/
def foundOpening (survey : Survey) (line : Nat) (text : List Char) (place : PlacedWord) :
    List (Nat × Finding) :=
  findingUnless (survey.depth = 0) line (.nestedModule survey.opened (place.offset + 1)) ++
    findingUnless (isName (String.ofList
        (nextWord (text.drop (place.offset + place.word.length))))) line
      (.invalidModuleName (place.offset + 1)) ++
    findingUnless (text.contains '(') line (.missingPortList (place.offset + 1))

/-- **A word that opens a module** finds what is wrong with it, and one more module is open. -/
theorem openModule_enters (survey : Survey) (line : Nat) (text : List Char) (place : PlacedWord) :
    Enters (survey.foundOpening line text place) (survey.depth + 1) survey
      (survey.openModule line text place) := by
  unfold openModule
  simp only
  generalize entered :
    (if 0 < survey.depth then
      survey.find line (.nestedModule survey.opened (place.offset + 1))
    else { survey with opened := line }) = inner
  have nested : Enters
      (findingUnless (survey.depth = 0) line (.nestedModule survey.opened (place.offset + 1)))
      survey.depth survey inner := by
    subst entered
    unfold findingUnless
    by_cases inside : 0 < survey.depth
    · rw [if_pos inside, if_neg (mt of_decide_eq_true (Nat.ne_of_gt inside))]
      exact ⟨rfl, Report.goesOn_find _ _ _, rfl, rfl, rfl, rfl⟩
    · rw [if_neg inside, if_pos (decide_eq_true (Nat.eq_zero_of_not_pos inside))]
      exact ⟨rfl, .none rfl rfl, rfl, rfl, rfl, rfl⟩
  have opened : Enters
      (findingUnless (survey.depth = 0) line (.nestedModule survey.opened (place.offset + 1)))
      (survey.depth + 1) survey { inner with depth := inner.depth + 1 } :=
    ⟨congrArg (· + 1) nested.depth, nested.report, nested.brackets, nested.parentheses,
      nested.blocks, nested.cases⟩
  exact (opened.nameModule line (place.offset + 1) _).findUnless (text.contains '(') line
    (.missingPortList (place.offset + 1))

/-- **A word that ends a module** ends one or is reported. -/
theorem closeModule_enters (survey : Survey) (line : Nat) (place : PlacedWord) :
    Enters (findingUnless (0 < survey.depth) line (.unmatchedEndmodule (place.offset + 1)))
      (survey.depth - 1) survey (survey.closeModule line place) := by
  unfold closeModule findingUnless
  by_cases none : survey.depth = 0
  · rw [if_pos none, if_neg (by simp [none])]
    exact ⟨by rw [none]; exact none, Report.goesOn_find _ _ _, rfl, rfl, rfl, rfl⟩
  · rw [if_neg none, if_pos (decide_eq_true (Nat.pos_of_ne_zero none))]
    exact ⟨rfl, .none rfl rfl, rfl, rfl, rfl, rfl⟩

/-- What is still open after the last line. -/
def leftOpen (survey : Survey) (lastLine : Nat) : List (Nat × Finding) :=
  findingUnless (survey.depth = 0) lastLine (.missingEndmodule survey.opened) ++
    (findingUnless (survey.brackets.depth = 0) survey.brackets.since .unmatchedBrackets ++
      (findingUnless (survey.parentheses.depth = 0) survey.parentheses.since
          .unmatchedParentheses ++
        (findingUnless (survey.blocks.depth = 0) survey.blocks.since .unmatchedBeginEnd ++
          findingUnless (survey.cases.depth ≤ 0) survey.cases.since .missingEndcase)))

/-- **What the end of a text adds** is what is still open. -/
theorem leftOpen_goesOn (survey : Survey) (lastLine : Nat) :
    Report.GoesOn (survey.leftOpen lastLine) survey.report (survey.finish lastLine) := by
  have modules := findUnless_goesOn survey (survey.depth = 0) lastLine
    (.missingEndmodule survey.opened)
  have brackets (earlier : Survey) := findUnless_goesOn earlier
    (survey.brackets.depth = 0) survey.brackets.since .unmatchedBrackets
  have parentheses (earlier : Survey) := findUnless_goesOn earlier
    (survey.parentheses.depth = 0) survey.parentheses.since .unmatchedParentheses
  have blocks (earlier : Survey) := findUnless_goesOn earlier
    (survey.blocks.depth = 0) survey.blocks.since .unmatchedBeginEnd
  have cases (earlier : Survey) := findUnless_goesOn earlier
    (survey.cases.depth ≤ 0) survey.cases.since .missingEndcase
  exact modules.trans ((brackets _).trans ((parentheses _).trans ((blocks _).trans (cases _))))

end Survey

end MiniVerilog.Lint
