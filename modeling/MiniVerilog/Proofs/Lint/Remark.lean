import MiniVerilog.Module.Elaborate
import MiniVerilog.Proofs.Lint.Comments
import MiniVerilog.Proofs.Lint.Spaced
import MiniVerilog.Proofs.Text.Appended
import MiniVerilog.Proofs.Token.Remark

/-! # Line comments do not matter

A line comment that is added at the end of a line that ends in code changes neither the module
nor the lint report of a source text (`MiniVerilog.ofSource_remarked`).
-/

namespace MiniVerilog

open Token (Complete EndsInCode pieceAt remark runsOn)

namespace Lint

/-- **What cleaning leaves of a piece that ends does not change when a delimiter follows.** -/
theorem leftOf_append {first : Char} {rest after : List Char} (ends : runsOn first rest = false)
    (delimited : Token.Delimited after) :
    leftOf first (rest ++ after) (Token.Start.of first rest.head?) =
      leftOf first rest (Token.Start.of first rest.head?) := by
  have inside := Token.following_pieceAt_le first rest
  have same := Token.pieceAt_append ends delimited
  rw [Token.pieceAt_eq] at inside
  rw [Token.pieceAt_eq, Token.pieceAt_eq, Token.Start.of_append first rest delimited] at same
  unfold runsOn at ends
  generalize Token.Start.of first rest.head? = start at inside same ends
  cases start with
  | lineComment | string => rfl
  | blockComment =>
      obtain ⟨length, closed⟩ := Option.isSome_iff_exists.mp (Option.isNone_eq_false_iff.mp ends)
      cases rest with
      | nil => cases closed
      | cons c rest =>
          rw [List.drop_succ_cons, List.drop_zero] at closed
          simp only [leftOf, List.cons_append, List.drop_succ_cons, List.drop_zero, closed,
            Token.commentLength?_append closed after]
  | separator | name | number | based | operator =>
      simp only [leftOf, same, List.take_append_of_le_length inside]

/-- Of a remark after code a space is left. -/
theorem cleanFrom_remark_alone (column : Nat) (text : List Char) :
    cleanFrom column false (remark text) = ⟨[' '], false, some (column + 1)⟩ := by
  have plain : ∀ c ∈ [' '], Token.isPlain c = true := List.forall_mem_singleton.mpr rfl
  change cleanFrom column false ([' '] ++ '/' :: '/' :: text) = _
  rw [cleanFrom_plain_append plain, cleanFrom]
  rfl

/-- The clean text stays but for a space, and no comment is open at the end. -/
theorem cleanFrom_remark {inComment : Bool} {cs : List Char} (complete : Complete inComment cs)
    (column : Nat) (text : List Char) :
    Spaced (cleanFrom column inComment cs).text
        (cleanFrom column inComment (cs ++ remark text)).text ∧
      (cleanFrom column inComment (cs ++ remark text)).inComment = false ∧
      (cleanFrom column inComment cs).inComment = false := by
  induction complete generalizing column with
  | done =>
      rw [List.nil_append, cleanFrom_remark_alone, cleanFrom]
      exact ⟨.inr rfl, rfl, rfl⟩
  | lineComment starts =>
      obtain ⟨rfl, before, rfl⟩ := Token.Start.eq_of_lineComment starts
      rw [List.cons_append, List.cons_append, cleanFrom, cleanFrom]
      exact ⟨.inl rfl, rfl, rfl⟩
  | @piece first rest ends _ ih =>
      have delimited := Token.delimited_remark text
      have start := Token.Start.of_append first rest delimited
      -- A line comment runs to the end of the line, so a piece that ends before it is none.
      have noLine : Token.Start.of first rest.head? ≠ .lineComment := by
        intro isLine
        rw [runsOn, isLine] at ends
        cases ends
      have still : Token.Start.of first (rest ++ remark text).head? ≠ .lineComment :=
        fun isLine => noLine (start.symm.trans isLine)
      rw [List.cons_append, cleanFrom_cons still, cleanFrom_cons noLine, start,
        leftOf_append ends delimited, Token.pieceAt_append ends delimited,
        List.drop_append_of_le_length (Token.following_pieceAt_le first rest),
        Token.opensComment_of_ends ends]
      obtain ⟨spaced, states⟩ := ih (column + 1 + (pieceAt first rest).following)
      exact ⟨spaced.append_left _, states⟩
  | @comment first rest length closed _ ih =>
      have inside := Token.commentLength?_le closed
      rw [cleanFrom_of_closed closed,
        cleanFrom_of_closed (Token.commentLength?_append closed (remark text)),
        List.drop_append_of_le_length inside]
      obtain ⟨spaced, states⟩ := ih (column + (length + 1))
      exact ⟨spaced.append_left _, states⟩

/-- A remark after code leaves at most a space more, and no comment open. -/
theorem clean_remark {inComment : Bool} {cs : List Char} (complete : Complete inComment cs)
    (text : List Char) : Spaced (clean inComment cs).1 (clean inComment (cs ++ remark text)).1 ∧
      (clean inComment (cs ++ remark text)).2 = (clean inComment cs).2 := by
  obtain ⟨spaced, newState, oldState⟩ := cleanFrom_remark complete 0 text
  rw [clean_eq_cleanFrom 0, clean_eq_cleanFrom 0]
  exact ⟨spaced, newState.trans oldState.symm⟩

/-- A line is checked as without the space at its end. -/
theorem Survey.checkLine_spaced {cs other : List Char} (spaced : Spaced cs other) (survey : Survey)
    (line : Nat) : survey.checkLine line other = survey.checkLine line cs := by
  rcases spaced with rfl | rfl
  · rfl
  · exact survey.checkLine_space line cs

/-- Lines after lines are checked with the numbers that follow. -/
theorem Survey.checkLines_append (survey : Survey) (line : Nat) (before after : List (List Char)) :
    survey.checkLines line (before ++ after) =
      (survey.checkLines line before).checkLines (line + before.length) after := by
  induction before generalizing survey line with
  | nil => rfl
  | cons text before ih =>
      rw [List.cons_append, checkLines, checkLines, ih, List.length_cons, Nat.add_right_comm,
        ← Nat.add_assoc]

/-- A line comment at the end of a complete line changes no report. -/
theorem checkLines_remark {before : List (List Char)} {line : List Char}
    (complete : Complete (openAfter false before) line) (text : List Char)
    (after : List (List Char)) :
    let lines := cleanLines false (before ++ line :: after)
    let others := cleanLines false (before ++ (line ++ remark text) :: after)
    others.length = lines.length ∧
      Survey.checkLines {} 1 others = Survey.checkLines {} 1 lines := by
  obtain ⟨spaced, states⟩ := clean_remark complete text
  intro lines others
  have oldLines : lines = cleanLines false before ++ cleanLines _ (line :: after) :=
    cleanLines_append false before (line :: after)
  have newLines : others =
      cleanLines false before ++ cleanLines _ ((line ++ remark text) :: after) :=
    cleanLines_append false before ((line ++ remark text) :: after)
  rw [cleanLines] at oldLines newLines
  rw [states] at newLines
  constructor
  · rw [oldLines, newLines, List.length_append, List.length_append, List.length_cons,
      List.length_cons]
  · rw [oldLines, newLines, Survey.checkLines_append, Survey.checkLines_append, Survey.checkLines,
      Survey.checkLines, Survey.checkLine_spaced spaced]

end Lint

/-- A line comment at the end of a line that ends in code changes no token but comments. -/
theorem Token.filter_scanLines_remark {before : List (List Char)} {line : List Char}
    (ends : EndsInCode (scanLine (1 + before.length) (openAfter 1 false before) line))
    (text : List Char) (after : List (List Char)) :
    (scanLines 1 false (before ++ (line ++ remark text) :: after)).filter isKept =
      (scanLines 1 false (before ++ line :: after)).filter isKept := by
  obtain ⟨kept, states⟩ := scanLine_remark ends text
  rw [scanLines_append, scanLines_append, scanLines_cons, scanLines_cons, states]
  simp only [List.filter_append, kept]

/-- The source text with a line comment at the end of the line with an index. -/
def remarked (source : String) (number : Nat) (comment : String) : String :=
  String.ofList (Text.appendToLine (" // " ++ comment).toList number source.toList)

/-- Only one line of the text is another. -/
theorem lines_remarked {source comment : String} (oneLine : '\n' ∉ comment.toList)
    {before after : List (List Char)} {line : List Char}
    (read : Text.lines source.toList = before ++ line :: after) :
    ∃ text, Text.lines (remarked source before.length comment).toList =
      before ++ (line ++ remark text) :: after := by
  have noFeed : '\n' ∉ (" // " ++ comment).toList := by
    rw [String.toList_append, List.mem_append, not_or]
    exact ⟨by decide, oneLine⟩
  obtain ⟨suffix, changed, shape⟩ := Text.lines_appendToLine noFeed read
  have whole : (" // " ++ comment).toList = remark (' ' :: comment.toList) := by
    rw [String.toList_append]
    rfl
  rw [whole] at shape
  have written : ∃ text, suffix = remark text := by
    rcases shape with rfl | returned
    · exact ⟨_, rfl⟩
    · refine ⟨(' ' :: comment.toList).dropLast, ?_⟩
      calc suffix = (suffix ++ ['\r']).dropLast := List.dropLast_concat.symm
        _ = (remark (' ' :: comment.toList)).dropLast := by rw [returned]
  obtain ⟨text, rfl⟩ := written
  exact ⟨text, by rw [remarked, String.toList_ofList, changed]⟩

/-- **A line comment changes nothing.** At the end of any line whose scan ends outside block
comments and outside strings, a line comment with any text leaves the module and the whole lint
report as they are. -/
theorem ofSource_remarked {source comment : String} (oneLine : '\n' ∉ comment.toList) {number : Nat}
    {line : List Char} (here : (Text.lines source.toList)[number]? = some line)
    (ends : EndsInCode (Token.scanLine (number + 1)
      (Token.openAfter 1 false ((Text.lines source.toList).take number)) line)) :
    Module.ofSource? (remarked source number comment) = Module.ofSource? source ∧
      Lint.Report.ofSource (remarked source number comment) = Lint.Report.ofSource source := by
  obtain ⟨before, after, read, rfl, taken⟩ : ∃ before after,
      Text.lines source.toList = before ++ line :: after ∧ before.length = number ∧
        (Text.lines source.toList).take number = before := by
    obtain ⟨inside, rfl⟩ := List.getElem?_eq_some_iff.mp here
    refine ⟨(Text.lines source.toList).take number, (Text.lines source.toList).drop (number + 1),
      ?_, List.length_take_of_le (Nat.le_of_lt inside), rfl⟩
    rw [← List.drop_eq_getElem_cons inside, List.take_append_drop]
  rw [taken, Nat.add_comm] at ends
  obtain ⟨text, written⟩ := lines_remarked oneLine read
  constructor
  · have same := Token.filter_scanLines_remark ends text after
    have kept : Token.isKept = fun token => token.kind != .comment := rfl
    rw [kept] at same
    rw [Module.ofSource?, Module.ofSource?, Token.scan, Token.scan, written, read, same]
  · have complete := Token.complete_of_scanLine ends
    rw [openAfter_agrees] at complete
    obtain ⟨lengths, surveys⟩ := Lint.checkLines_remark complete text after
    simp only [Lint.Report.ofSource, written, read, lengths, surveys]

/-- An assignment whose semicolon is on the next line, with a comment of quotes, brackets and ends
of other comments between them. -/
theorem ofSource_remarked_assign :
    let source := "module t(input a, output y);\n /* b */ assign y = a\n; endmodule\n"
    let comment := "\" */ (; endmodule"
    remarked source 1 comment =
        "module t(input a, output y);\n /* b */ assign y = a // \" */ (; endmodule\n; endmodule\n" ∧
      (Module.ofSource? source).isSome = true ∧ (Lint.Report.ofSource source).errors ≠ [] ∧
      Module.ofSource? (remarked source 1 comment) = Module.ofSource? source ∧
      Lint.Report.ofSource (remarked source 1 comment) = Lint.Report.ofSource source := by
  intro source comment
  have here : (Text.lines source.toList)[1]? = some " /* b */ assign y = a".toList := by
    decide +kernel
  have ends : EndsInCode (Token.scanLine (1 + 1)
      (Token.openAfter 1 false ((Text.lines source.toList).take 1))
      " /* b */ assign y = a".toList) := by
    constructor <;> decide +kernel
  refine ⟨by decide +kernel, by decide +kernel, by decide +kernel, ?_⟩
  exact ofSource_remarked (by decide +kernel) here ends

end MiniVerilog
