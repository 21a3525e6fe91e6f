import MiniVerilog.Lint.Balance
import MiniVerilog.Lint.CleanText
import MiniVerilog.Lint.Declarations
import MiniVerilog.Text.Line

/-! # Linting a source text

The clean lines are looked at one after another. On each line the delimiters are
counted, then the words that open and close constructs, and last the segments
are read. What is still open at the end is reported then.
-/

namespace MiniVerilog.Lint

/-- What is known after some lines. -/
structure Survey where
  report : Report := {}
  /-- The number of open modules. -/
  depth : Nat := 0
  /-- The line of the outermost open module, or of the last one. -/
  opened : Nat := 0
  brackets : Balance := {}
  parentheses : Balance := {}
  blocks : Balance := {}
  cases : Balance := {}
  deriving DecidableEq, Repr

namespace Survey

/-- Adds a finding about a line. -/
def find (survey : Survey) (line : Nat) (finding : Finding) : Survey :=
  { survey with report := survey.report.find line finding }

/-- Counts a bracket or a parenthesis. -/
def countDelimiter (line : Nat) (survey : Survey) (c : Char) : Survey :=
  match c with
  | '[' => { survey with brackets := survey.brackets.opened line }
  | ']' => { survey with brackets := survey.brackets.closed line }
  | '(' => { survey with parentheses := survey.parentheses.opened line }
  | ')' => { survey with parentheses := survey.parentheses.closed line }
  | _ => survey

/-- The word after a text, which may be empty. -/
def nextWord (cs : List Char) : List Char :=
  (Text.trimStart cs).takeWhile isWordChar

/-- Names the report after a module, unless it has a name; the name has to be a
valid one. -/
def nameModule (survey : Survey) (line column : Nat) (name : List Char) : Survey :=
  if isName (String.ofList name) then
    if survey.report.name.isEmpty then
      { survey with report := { survey.report with name := String.ofList name } }
    else survey
  else survey.find line (.invalidModuleName column)

/-- A module opens. -/
def openModule (survey : Survey) (line : Nat) (text : List Char) (place : PlacedWord) : Survey :=
  let column := place.offset + 1
  let nested :=
    if 0 < survey.depth then survey.find line (.nestedModule survey.opened column)
    else { survey with opened := line }
  let named := { nested with depth := nested.depth + 1 }.nameModule line column
    (nextWord (text.drop (place.offset + place.word.length)))
  if text.contains '(' then named else named.find line (.missingPortList column)

/-- A module ends. -/
def closeModule (survey : Survey) (line : Nat) (place : PlacedWord) : Survey :=
  if survey.depth = 0 then survey.find line (.unmatchedEndmodule (place.offset + 1))
  else { survey with depth := survey.depth - 1 }

/-- Looks at a word of a line. -/
def countWord (line : Nat) (text : List Char) (survey : Survey) (place : PlacedWord) : Survey :=
  match place.word with
  | "begin" => { survey with blocks := survey.blocks.opened line }
  | "end" => { survey with blocks := survey.blocks.closed line }
  | "case" | "casex" | "casez" => { survey with cases := survey.cases.opened line }
  | "endcase" => { survey with cases := survey.cases.closed line }
  | "module" | "macromodule" => survey.openModule line text place
  | "endmodule" => survey.closeModule line place
  | _ => survey

/-- A character of the target that the linter reads from an assignment. -/
def isTargetChar (c : Char) : Bool :=
  c.isAlphanum || c == '_'

/-- Reads a continuous assignment. -/
def checkAssign (survey : Survey) (line : Nat) (segment : Segment) : Survey :=
  let survey := if segment.terminated then survey else survey.find line .openAssign
  let body := (Text.trimStart segment.text).drop "assign".length
  match body.dropWhile (· != '=') with
  | [] => survey.find line .missingAssignment
  | _ :: expression =>
    let target := (Text.trim (body.takeWhile (· != '='))).takeWhile isTargetChar
    let assign : Assign :=
      ⟨String.ofList target, String.ofList (Text.trim expression), line⟩
    { survey with
      report := { survey.report with assigns := survey.report.assigns ++ [assign] } }

/-- The signals of an event control, given the text after `@`. -/
def eventWords (control : List Char) : List String :=
  match Text.trimStart control with
  | '*' :: _ => ["*"]
  | '(' :: inner =>
    (atoms (inner.takeWhile (· != ')'))).filter fun atom =>
      atom == "*" || (isName atom && atom != "or")
  | rest => ((atoms rest).head?.filter isName).toList

/-- A text has another one in it. -/
def occursIn (part : List Char) : List Char → Bool
  | [] => part.isEmpty
  | c :: rest => part.isPrefixOf (c :: rest) || occursIn part rest

/-- An event control that waits for every signal. -/
def isImplicitControl (segment : List Char) : Bool :=
  let compact := segment.filter fun c => !Text.isBlank c
  occursIn "@*".toList compact || occursIn "@(*)".toList compact

/-- Reads the head of an always block. -/
def checkAlways (survey : Survey) (line : Nat) (segment : List Char) : Survey :=
  let survey :=
    if segment.contains '@' || (wordsOf segment).contains "begin" then survey
    else survey.find line .invalidAlwaysBlock
  let survey :=
    if isImplicitControl segment then survey.find line .implicitSensitivity else survey
  let sensitivityList := match segment.dropWhile (· != '@') with
    | [] => []
    | _ :: control => eventWords control
  { survey with
    report := { survey.report with
      alwaysHeaders := survey.report.alwaysHeaders ++ [⟨sensitivityList, line⟩] } }

/-- Reads a signal declaration. -/
def checkSignals (survey : Survey) (line : Nat) (kind : SignalKind) (terminated : Bool)
    (rest : List String) : Survey :=
  let survey := if terminated then survey else survey.find line (.openDeclaration kind.spelling)
  { survey with report := survey.report.collectSignals line kind rest }

/-- Reads a segment of a line: first by its first word, then for declarations of
ports and parameters anywhere in it. -/
def checkSegment (line : Nat) (survey : Survey) (segment : Segment) : Survey :=
  let survey := match atoms segment.text with
    | "assign" :: _ => survey.checkAssign line segment
    | "always" :: _ => survey.checkAlways line segment.text
    | "wire" :: rest => survey.checkSignals line .wire segment.terminated rest
    | "reg" :: rest => survey.checkSignals line .reg segment.terminated rest
    | _ => survey
  { survey with report := survey.report.collect line (atoms segment.text) }

/-- Looks at a clean line. -/
def checkLine (survey : Survey) (line : Nat) (text : List Char) : Survey :=
  let survey := text.foldl (countDelimiter line) survey
  let survey := (placedWords 0 text).foldl (countWord line text) survey
  (segments text).foldl (checkSegment line) survey

/-- Looks at consecutive clean lines, the first of which has the given number. -/
def checkLines (survey : Survey) (line : Nat) : List (List Char) → Survey
  | [] => survey
  | text :: following => (survey.checkLine line text).checkLines (line + 1) following

/-- Reports what a balance says at the end. -/
def findUnless (survey : Survey) (balanced : Bool) (line : Nat) (finding : Finding) : Survey :=
  if balanced then survey else survey.find line finding

/-- Reports what is still open at the end of a text with the given last line. -/
def finish (survey : Survey) (lastLine : Nat) : Report :=
  survey
    |>.findUnless (survey.depth = 0) lastLine (.missingEndmodule survey.opened)
    |>.findUnless (survey.brackets.depth = 0) survey.brackets.since .unmatchedBrackets
    |>.findUnless (survey.parentheses.depth = 0) survey.parentheses.since .unmatchedParentheses
    |>.findUnless (survey.blocks.depth = 0) survey.blocks.since .unmatchedBeginEnd
    |>.findUnless (survey.cases.depth ≤ 0) survey.cases.since .missingEndcase
    |>.report

end Survey

/-- Lints a source text. -/
def Report.ofSource (source : String) : Report :=
  let lines := cleanLines false (Text.lines source.toList)
  (Survey.checkLines {} 1 lines).finish (max lines.length 1)

end MiniVerilog.Lint
