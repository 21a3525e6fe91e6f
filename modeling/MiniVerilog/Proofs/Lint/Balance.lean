import Mathlib.Data.List.Induction
import MiniVerilog.Proofs.Lint.Found

/-! # Balance of delimiters

Brackets, parentheses, blocks and case statements open and close. Of the first three a report tells
exactly whether as many open as close, and if not, where the running depth last left 0
(`MiniVerilog.Lint.Report.ofSource_tellsBalance`). An end of a case statement that ends none hides
a case statement without an end (`MiniVerilog.Lint.Report.ofSource_tellsCases`).
-/

namespace MiniVerilog.Lint

/-- A delimiter of one family, with its line. -/
structure Delimiter where
  line : Nat
  opens : Bool
  deriving DecidableEq, Repr

namespace Delimiter

/-- The delimiter that a sign of a line is, if it is one. -/
def of? {α : Type} [DecidableEq α] (openers : List α) (closer : α) (line : Nat) (sign : α) :
    Option Delimiter :=
  if sign ∈ openers then some ⟨line, true⟩
  else if sign = closer then some ⟨line, false⟩
  else none

theorem of?_eq_none {α : Type} [DecidableEq α] {openers : List α} {closer sign : α}
    (noOpener : sign ∉ openers) (noCloser : sign ≠ closer) (line : Nat) :
    of? openers closer line sign = none := by
  rw [of?, if_neg noOpener, if_neg noCloser]

/-- The number of delimiters that open. -/
def openers (delimiters : List Delimiter) : Nat :=
  delimiters.countP (·.opens)

/-- The number of delimiters that close. -/
def closers (delimiters : List Delimiter) : Nat :=
  delimiters.countP fun delimiter => !delimiter.opens

/-- Openers less closers. -/
def depth (delimiters : List Delimiter) : Int :=
  openers delimiters - closers delimiters

/-- At an index is the last delimiter with as many openers as closers before it. -/
def IsLastDeparture (delimiters : List Delimiter) (index : Nat) : Prop :=
  depth (delimiters.take index) = 0 ∧
    ∀ later, index < later → later < delimiters.length → depth (delimiters.take later) ≠ 0

/-- The number of constructs that stay open. -/
def leftOpen (delimiters : List Delimiter) : Nat :=
  depthAtEnd opens 0 delimiters

/-- The number of closers that are met while nothing is open, when a number of constructs is open
at first. -/
def strays (count : Nat) (delimiters : List Delimiter) : Nat :=
  strayCloses opens count delimiters

/-- One more delimiter moves the depth up or down by one. -/
theorem depth_concat (delimiters : List Delimiter) (delimiter : Delimiter) :
    depth (delimiters ++ [delimiter]) =
      depth delimiters + if delimiter.opens then 1 else -1 := by
  unfold depth openers closers
  rw [List.countP_append, List.countP_append]
  cases opens : delimiter.opens
  · simp only [List.countP_singleton, opens, Bool.not_false, Bool.false_eq_true, ↓reduceIte]
    omega
  · simp only [List.countP_singleton, opens, Bool.not_true, Bool.false_eq_true, ↓reduceIte]
    omega

/-- The depth is 0 exactly if as many delimiters open as close. -/
theorem depth_eq_zero_iff {delimiters : List Delimiter} :
    depth delimiters = 0 ↔ openers delimiters = closers delimiters := by
  unfold depth
  omega

/-- At most as many delimiters open as close when what stays open is made up for by strays. -/
theorem depth_le_zero_iff {delimiters : List Delimiter} :
    depth delimiters ≤ 0 ↔ leftOpen delimiters ≤ strays 0 delimiters := by
  have all : 0 + openers delimiters + strays 0 delimiters =
      closers delimiters + leftOpen delimiters := countP_add_strayCloses opens 0 delimiters
  unfold depth
  omega

/-- The last departure stays where it is while the depth is not 0. -/
theorem IsLastDeparture.concat {delimiters : List Delimiter} {index : Nat}
    (departs : IsLastDeparture delimiters index) (inside : index < delimiters.length)
    (away : depth delimiters ≠ 0) (delimiter : Delimiter) :
    IsLastDeparture (delimiters ++ [delimiter]) index := by
  obtain ⟨balanced, after⟩ := departs
  refine ⟨?_, fun later less bound => ?_⟩
  · rwa [List.take_append_of_le_length (Nat.le_of_lt inside)]
  · rw [List.length_append, List.length_singleton, Nat.lt_succ_iff] at bound
    rw [List.take_append_of_le_length bound]
    rcases Nat.lt_or_eq_of_le bound with earlier | rfl
    · exact after later less earlier
    · rwa [List.take_length]

/-- A delimiter that leaves depth 0 is the last one that does. -/
theorem isLastDeparture_concat {delimiters : List Delimiter} (balanced : depth delimiters = 0)
    (delimiter : Delimiter) :
    IsLastDeparture (delimiters ++ [delimiter]) delimiters.length := by
  refine ⟨?_, fun later less bound => ?_⟩
  · rwa [List.take_left]
  · rw [List.length_append, List.length_singleton] at bound
    omega

end Delimiter

/-- Counts a delimiter. -/
def Balance.count (balance : Balance) (delimiter : Delimiter) : Balance :=
  if delimiter.opens then balance.opened delimiter.line else balance.closed delimiter.line

namespace Balance

theorem depth_count (balance : Balance) (delimiter : Delimiter) :
    (balance.count delimiter).depth = balance.depth + if delimiter.opens then 1 else -1 := by
  unfold count
  split <;> rfl

/-- Counting a delimiter notes its line if the depth was 0 before. -/
theorem since_count (balance : Balance) (delimiter : Delimiter) :
    (balance.count delimiter).since =
      if balance.depth = 0 then delimiter.line else balance.since := by
  unfold count
  split <;> rfl

/-- A balance has the depth of what was counted. -/
theorem depth_foldl_count (delimiters : List Delimiter) :
    (delimiters.foldl count {}).depth = Delimiter.depth delimiters := by
  induction delimiters using List.reverseRecOn with
  | nil => rfl
  | append_singleton delimiters delimiter ih =>
      rw [List.foldl_concat, depth_count, ih, Delimiter.depth_concat]

/-- **A balance remembers the last departure from 0.** -/
theorem exists_isLastDeparture {delimiters : List Delimiter} (some : delimiters ≠ []) :
    ∃ index delimiter, delimiters[index]? = Option.some delimiter ∧
      Delimiter.IsLastDeparture delimiters index ∧
      (delimiters.foldl count {}).since = delimiter.line := by
  induction delimiters using List.reverseRecOn with
  | nil => exact absurd rfl some
  | append_singleton delimiters delimiter ih =>
      rw [List.foldl_concat, since_count, depth_foldl_count]
      by_cases balanced : Delimiter.depth delimiters = 0
      · rw [if_pos balanced]
        exact ⟨delimiters.length, delimiter, List.getElem?_concat_length,
          Delimiter.isLastDeparture_concat balanced delimiter, rfl⟩
      · rw [if_neg balanced]
        have before : delimiters ≠ [] := by
          rintro rfl
          exact balanced rfl
        obtain ⟨index, last, found, departs, since⟩ := ih before
        have inside : index < delimiters.length := (List.getElem?_eq_some_iff.mp found).1
        exact ⟨index, last, by rwa [List.getElem?_append_left inside],
          departs.concat inside balanced delimiter, since⟩

end Balance

/-- What opens and closes in a source text. -/
inductive Family where
  | brackets | parentheses | blocks | cases
  deriving DecidableEq, Repr

namespace Family

/-- The delimiter of the family that a character is. -/
def ofChar? : Family → Nat → Char → Option Delimiter
  | brackets => Delimiter.of? ['['] ']'
  | parentheses => Delimiter.of? ['('] ')'
  | _ => fun _ _ => none

/-- The delimiter of the family that a word is. -/
def ofWord? : Family → Nat → String → Option Delimiter
  | blocks => Delimiter.of? ["begin"] "end"
  | cases => Delimiter.of? ["case", "casex", "casez"] "endcase"
  | _ => fun _ _ => none

/-- The delimiters of the family on a clean line: characters or words, in reading order. -/
def onLine (family : Family) (line : Nat) (text : List Char) : List Delimiter :=
  text.filterMap (family.ofChar? line) ++
    (placedWords 0 text).filterMap fun place => family.ofWord? line place.word

/-- The delimiters on consecutive clean lines, the first of which has the given number. -/
def onLines (family : Family) (line : Nat) : List (List Char) → List Delimiter
  | [] => []
  | text :: following => family.onLine line text ++ family.onLines (line + 1) following

/-- The delimiters of the family in a source text, in reading order. -/
def inSource (family : Family) (source : String) : List Delimiter :=
  family.onLines 1 (cleanLines false (Text.lines source.toList))

/-- The balance that is kept for the family. -/
def balance : Family → Survey → Balance
  | brackets => Survey.brackets
  | parentheses => Survey.parentheses
  | blocks => Survey.blocks
  | cases => Survey.cases

/-- What is found when the family is not balanced. -/
def finding : Family → Finding
  | brackets => .unmatchedBrackets
  | parentheses => .unmatchedParentheses
  | blocks => .unmatchedBeginEnd
  | cases => .missingEndcase

/-- A character is counted for the family that it belongs to, and for no other one. -/
theorem balance_countDelimiter (family : Family) (line : Nat) (survey : Survey) (c : Char) :
    family.balance (Survey.countDelimiter line survey c) =
      (family.ofChar? line c).toList.foldl Balance.count (family.balance survey) := by
  unfold Survey.countDelimiter
  split
  case h_5 opening closing left right =>
    have other : family.ofChar? line c = none := by
      cases family with
      | brackets =>
          exact Delimiter.of?_eq_none (mt List.mem_singleton.mp opening) closing line
      | parentheses => exact Delimiter.of?_eq_none (mt List.mem_singleton.mp left) right line
      | blocks | cases => rfl
    rw [other]
    rfl
  all_goals cases family <;> rfl

/-- Entering or leaving a module counts no delimiter. -/
theorem balance_of_enters (family : Family) {found : List (Nat × Finding)} {depth : Nat}
    {first second : Survey} (enters : Survey.Enters found depth first second) :
    family.balance second = family.balance first := by
  cases family with
  | brackets => exact enters.brackets
  | parentheses => exact enters.parentheses
  | blocks => exact enters.blocks
  | cases => exact enters.cases

/-- **A word is counted for the family that it belongs to**, and for no other one. -/
theorem balance_countWord (family : Family) (line : Nat) (text : List Char) (survey : Survey)
    (place : PlacedWord) :
    family.balance (Survey.countWord line text survey place) =
      (family.ofWord? line place.word).toList.foldl Balance.count (family.balance survey) := by
  unfold Survey.countWord
  split
  case h_7 opens =>
    rw [balance_of_enters family (Survey.openModule_enters ..), opens]
    cases family <;> rfl
  case h_8 opens =>
    rw [balance_of_enters family (Survey.openModule_enters ..), opens]
    cases family <;> rfl
  case h_9 ends =>
    rw [balance_of_enters family (Survey.closeModule_enters ..), ends]
    cases family <;> rfl
  case h_10 =>
    have other : family.ofWord? line place.word = none := by
      cases family <;> simp_all [ofWord?, Delimiter.of?]
    rw [other]
    rfl
  all_goals
    rename_i same
    rw [same]
    cases family <;> rfl

/-- What every step counts, all steps count. -/
theorem balance_foldl (family : Family) {α : Type} {step : Survey → α → Survey}
    {sign : α → Option Delimiter}
    (one : ∀ survey entry, family.balance (step survey entry) =
      (sign entry).toList.foldl Balance.count (family.balance survey))
    (entries : List α) (survey : Survey) :
    family.balance (entries.foldl step survey) =
      (entries.filterMap sign).foldl Balance.count (family.balance survey) := by
  induction entries generalizing survey with
  | nil => rfl
  | cons entry entries ih =>
      have split : (entry :: entries).filterMap sign =
          (sign entry).toList ++ entries.filterMap sign := by
        cases found : sign entry <;> simp [found]
      rw [List.foldl_cons, ih, one, split, List.foldl_append]

/-- **A line is counted**: its characters and then its words. -/
theorem balance_checkLine (family : Family) (survey : Survey) (line : Nat) (text : List Char) :
    family.balance (survey.checkLine line text) =
      (family.onLine line text).foldl Balance.count (family.balance survey) := by
  have characters := family.balance_foldl (family.balance_countDelimiter line) text survey
  have words := family.balance_foldl (family.balance_countWord line text) (placedWords 0 text)
    (text.foldl (Survey.countDelimiter line) survey)
  have pieces := Survey.OnlyFinds.foldl (Survey.checkSegment_onlyFinds line) (segments text)
    ((placedWords 0 text).foldl (Survey.countWord line text)
      (text.foldl (Survey.countDelimiter line) survey))
  have unchanged : family.balance (survey.checkLine line text) = family.balance
      ((placedWords 0 text).foldl (Survey.countWord line text)
        (text.foldl (Survey.countDelimiter line) survey)) := by
    rw [Survey.checkLine, pieces.others]
    cases family <;> rfl
  rw [unchanged, words, characters, onLine, List.foldl_append]

/-- **A survey counts the delimiters of every family.** -/
theorem balance_checkLines (family : Family) (survey : Survey) (line : Nat)
    (lines : List (List Char)) :
    family.balance (survey.checkLines line lines) =
      (family.onLines line lines).foldl Balance.count (family.balance survey) := by
  induction lines generalizing survey line with
  | nil => rfl
  | cons text following ih =>
      rw [Survey.checkLines, ih, balance_checkLine, onLines, List.foldl_append]

theorem balance_ofSource (family : Family) (source : String) :
    family.balance (Survey.ofSource source) = (family.inSource source).foldl Balance.count {} := by
  rw [Survey.ofSource, balance_checkLines, inSource]
  cases family <;> rfl

/-- The depths that are not reported at the end of a text. -/
def settles : Family → Int → Bool
  | cases, depth => depth ≤ 0
  | _, depth => depth = 0

/-- At the end a family is reported at the line of its last departure, unless its depth is one that
settles it. -/
theorem foundPlaces_leftOpen (family : Family) (survey : Survey) (lastLine : Nat) :
    foundPlaces family.finding.code (survey.leftOpen lastLine) =
      if family.settles (family.balance survey).depth then []
      else [((family.balance survey).since, none)] := by
  unfold Survey.leftOpen
  cases family <;>
    simp only [foundPlaces_append, foundPlaces_findingUnless, finding, Finding.code,
      reduceCtorEq, ↓reduceIte, List.nil_append, List.append_nil] <;>
    rfl

end Family

namespace Report

/-- A report has one diagnostic with a code, without a column, on the line of the last delimiter
with as many openers as closers before it. -/
def TellsDeparture (delimiters : List Delimiter) (code : DiagnosticCode) (report : Report) : Prop :=
  ∃ index delimiter, delimiters[index]? = some delimiter ∧
    Delimiter.IsLastDeparture delimiters index ∧
    report.places code = [(delimiter.line, none)]

/-- **A report has one place for a family that is not settled** and none for one that is. Nothing
before the end of the text reports a family. -/
theorem places_family (family : Family) (source : String) :
    (Report.ofSource source).places family.finding.code =
      if family.settles (Delimiter.depth (family.inSource source)) then []
      else [(((family.inSource source).foldl Balance.count {}).since, none)] := by
  obtain ⟨found, goesOn, known⟩ := ofSource_goesOn source
  have isError : family.finding.code.category = .error := by cases family <;> rfl
  have foreign : family.finding.code ∉ wordCodes ++ Survey.segmentCodes := by
    cases family <;> decide
  have others : ∀ entry ∈ found, entry.2.code ≠ family.finding.code := by
    intro entry member same
    obtain ⟨index, text, -, -, finding⟩ := known entry member
    exact foreign (same ▸ finding.code_mem)
  rw [goesOn.places isError, foundPlaces_append, foundPlaces_of_ne others, List.nil_append,
    family.foundPlaces_leftOpen, family.balance_ofSource, Balance.depth_foldl_count]

/-- **A family that is not settled is reported once**, where the depth last left 0. -/
theorem tellsDeparture_of_not_settles (family : Family) {source : String}
    (unsettled : family.settles (Delimiter.depth (family.inSource source)) = false) :
    (Report.ofSource source).TellsDeparture (family.inSource source) family.finding.code := by
  have some : family.inSource source ≠ [] := by
    intro none
    rw [none] at unsettled
    cases family <;> cases unsettled
  obtain ⟨index, delimiter, found, departs, since⟩ := Balance.exists_isLastDeparture some
  refine ⟨index, delimiter, found, departs, ?_⟩
  rw [places_family, unsettled, since]
  rfl

/-- A family that is settled is not reported. -/
theorem places_of_settles (family : Family) {source : String}
    (settled : family.settles (Delimiter.depth (family.inSource source)) = true) :
    (Report.ofSource source).places family.finding.code = [] := by
  rw [places_family, settled]
  rfl

/-- A report tells whether as many delimiters of a family open as close, and where not. -/
structure TellsBalance (delimiters : List Delimiter) (code : DiagnosticCode) (report : Report) :
    Prop where
  balanced : Delimiter.openers delimiters = Delimiter.closers delimiters → report.places code = []
  unbalanced : Delimiter.openers delimiters ≠ Delimiter.closers delimiters →
    report.TellsDeparture delimiters code

/-- **Brackets, parentheses and blocks are balanced or reported once**, on the line of the last
delimiter before which their depth was 0. -/
theorem ofSource_tellsBalance (source : String) :
    (Report.ofSource source).TellsBalance (Family.brackets.inSource source) .unmatchedBrackets ∧
      (Report.ofSource source).TellsBalance (Family.parentheses.inSource source)
        .unmatchedParentheses ∧
      (Report.ofSource source).TellsBalance (Family.blocks.inSource source)
        .unmatchedBeginEnd := by
  have tells (family : Family) (strict : family ≠ .cases) :
      (Report.ofSource source).TellsBalance (family.inSource source) family.finding.code := by
    have settles (depth : Int) : family.settles depth = decide (depth = 0) := by
      cases family with
      | cases => exact absurd rfl strict
      | _ => rfl
    constructor
    · intro same
      apply places_of_settles
      rw [settles, decide_eq_true_eq, Delimiter.depth_eq_zero_iff]
      exact same
    · intro other
      apply tellsDeparture_of_not_settles
      rw [settles, decide_eq_false_iff_not, Delimiter.depth_eq_zero_iff]
      exact other
  exact ⟨tells .brackets (by decide), tells .parentheses (by decide), tells .blocks (by decide)⟩

/-- A report has a code exactly if the code has a place in it. -/
theorem hasCode_iff {report : Report} {code : DiagnosticCode} :
    report.hasCode code = true ↔ report.places code ≠ [] := by
  rw [hasCode, List.any_eq_true, places, ne_eq, List.map_eq_nil_iff, List.filter_eq_nil_iff]
  push Not
  rfl

/-- What a report tells of case statements: whether more of them stay open than ends end none, and
if so where the depth last left 0. -/
structure TellsCases (delimiters : List Delimiter) (report : Report) : Prop where
  reported : report.hasCode .missingEndcase = true ↔
    Delimiter.strays 0 delimiters < Delimiter.leftOpen delimiters
  departure : Delimiter.strays 0 delimiters < Delimiter.leftOpen delimiters →
    report.TellsDeparture delimiters .missingEndcase

/-- **A case statement that stays open is reported** unless an end that ends none makes up for
it. -/
theorem ofSource_tellsCases (source : String) :
    (Report.ofSource source).TellsCases (Family.cases.inSource source) := by
  have departs (more : Delimiter.strays 0 (Family.cases.inSource source) <
      Delimiter.leftOpen (Family.cases.inSource source)) :
      (Report.ofSource source).TellsDeparture (Family.cases.inSource source) .missingEndcase :=
    tellsDeparture_of_not_settles .cases
      (decide_eq_false (mt Delimiter.depth_le_zero_iff.mp (Nat.not_le_of_lt more)))
  refine ⟨⟨fun reported => ?_, fun more => ?_⟩, departs⟩
  · by_contra fewer
    have settled := decide_eq_true (Delimiter.depth_le_zero_iff.mpr (Nat.le_of_not_lt fewer))
    exact hasCode_iff.mp reported (places_of_settles .cases settled)
  · obtain ⟨index, delimiter, -, -, places⟩ := departs more
    rw [hasCode_iff, show (Report.ofSource source).places .missingEndcase = _ from places]
    exact List.cons_ne_nil _ _

/-- An end before a case statement hides that the case statement has no end. -/
theorem not_hasCode_missingEndcase :
    let source := "module m(input a);\nalways @(a) begin\nendcase\ncase (a)\nend\nendmodule\n"
    Delimiter.leftOpen (Family.cases.inSource source) = 1 ∧
      (Report.ofSource source).hasCode .missingEndcase = false := by
  decide +kernel

end Report

end MiniVerilog.Lint
