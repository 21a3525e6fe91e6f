import MiniVerilog.Proofs.Module.Frame
import MiniVerilog.Proofs.Module.Names
import MiniVerilog.Proofs.Statement.Rendering

/-! # Always blocks are read back from their texts

The statement texts of an always block, put into a module of their own, are read as one
always block with the same statements if the statements read back
(`MiniVerilog.Module.ofSource?_framedText`). A right side in two pairs of parentheses does
not: each reading takes one pair off (`MiniVerilog.Module.framedText_parentheses`).
-/

namespace MiniVerilog

open Source (word mark codeTokens)
open StatementTree (delimited_space bodyReadsBack blockLine texts targetsOfBody)

/-- A module with one always block around statement texts. -/
def Source.framedText (lines : List String) : String :=
  "module r(); always @(*) begin " ++ joined lines ++ " end endmodule"

/-- The line of the module with this line after its `begin`. -/
def Source.framedLine (statements : List Char) : List Char :=
  Keyword.module_.spelling.toList ++ ' ' :: ("r".toList ++ '(' :: ')' :: ';' :: ' ' ::
    (Keyword.always.spelling.toList ++ ' ' :: '@' :: '(' :: ("*".toList ++ ')' :: ' ' ::
      (Keyword.begin_.spelling.toList ++ ' ' :: statements))))

/-- What stands after the `end` of the block. -/
def Source.endingLine : List Char :=
  ' ' :: (Keyword.endmodule.spelling.toList ++ [])

/-- The framed text is a line of its own: the head of the module, the statements, and the ends. -/
theorem toList_framedText (trees : List StatementTree) :
    (Source.framedText (texts trees)).toList =
      Source.framedLine (blockLine trees Source.endingLine) := by
  unfold Source.framedText
  rw [String.toList_append, String.toList_append, List.append_assoc]
  rfl

/-- The tokens of the framed line are those of the statements in a frame. -/
theorem codeTokens_framedLine (statements : List Char) :
    codeTokens (Source.framedLine statements) = Source.frame "r" (codeTokens statements) := by
  have name : Token.IsLexeme .identifier "r" := by decide
  have star : Token.IsLexeme .operator "*" := Token.isLexeme_operator "*" (by decide)
  rw [Source.framedLine, Source.codeTokens_word _ (delimited_space _), Source.codeTokens_blank,
    Source.codeTokens_lexeme name (by decide) (Token.Delimited.cons (by decide) _),
    Source.codeTokens_mark (by decide), Source.codeTokens_mark (by decide),
    Source.codeTokens_mark (by decide), Source.codeTokens_blank,
    Source.codeTokens_word _ (delimited_space _), Source.codeTokens_blank,
    Source.codeTokens_mark (by decide), Source.codeTokens_mark (by decide),
    Source.codeTokens_lexeme star (by decide) (Token.Delimited.cons (by decide) _),
    Source.codeTokens_mark (by decide), Source.codeTokens_blank,
    Source.codeTokens_word _ (delimited_space _), Source.codeTokens_blank]
  rfl

theorem codeTokens_endingLine : codeTokens Source.endingLine = [word .endmodule] := by
  rw [Source.endingLine, Source.codeTokens_blank, Source.codeTokens_word _ Token.Delimited.nil,
    Source.codeTokens_nil]

section Trees

variable {trees : List StatementTree} (reads : bodyReadsBack trees = true)
  (named : ∀ name ∈ targetsOfBody trees, Source.IsTargetName name)

include reads named

/-- **The framed text is scanned as one line** whose comments are left out. -/
theorem scan_framedText :
    ((Token.scan (Source.framedText (texts trees))).filter
        fun token => token.kind != .comment).map Token.bare =
      codeTokens (Source.framedText (texts trees)).toList := by
  have oneLine : '\n' ∉ (Source.framedText (texts trees)).toList := by
    unfold Source.framedText
    rw [String.toList_append, String.toList_append, List.mem_append, List.mem_append]
    rintro ((opening | inside) | closing)
    · exact absurd opening (by decide)
    · exact Source.not_mem_joined (by decide) (StatementTree.not_mem_texts trees reads named) inside
    · exact absurd closing (by decide)
  have noComment : ['/', '/'].isPrefixOf
      (Text.trimStart (Source.framedText (texts trees)).toList) = false := by
    rw [toList_framedText]
    rfl
  rw [codeTokens, ← Token.bare_scan oneLine noComment, List.filter_map]
  rfl

/-- Statements that read back do so in a module of their own. -/
theorem exists_of_framedText :
    ∃ module block, Module.ofSource? (Source.framedText (texts trees)) = some module ∧
      module.alwaysBlocks = [block] ∧
      (module.trees block.body).map StatementTree.bare = trees.map StatementTree.bare := by
  have scanned := scan_framedText reads named
  rw [toList_framedText, codeTokens_framedLine] at scanned
  have delimited : Token.Delimited Source.endingLine := delimited_space _
  have block := (StatementTree.body_reads trees reads named).block _ delimited
  have noLabel := (StatementTree.headIs_blockLine reads named delimited).1
  rw [codeTokens_endingLine] at block
  rw [← StatementTree.bareAll_eq_map]
  exact Module.exists_of_frame scanned (Source.StatementReads.block block noLabel)

end Trees

namespace Module

/-- The names that a module assigns in always blocks are read as targets. -/
theorem isTargetName_of_mem_targets {source : String} {module : Module} {block : AlwaysBlock}
    (parsed : ofSource? source = some module) (member : block ∈ module.alwaysBlocks) :
    ∀ name ∈ targetsOfBody (module.trees block.body), Source.IsTargetName name := by
  intro name assigned
  obtain ⟨token, scanned, isTarget, rfl⟩ := exists_token_of_mem_targets parsed member assigned
  obtain ⟨isName, noCase⟩ := Bool.and_eq_true_iff.mp isTarget
  have kind : token.kind = .identifier := beq_iff_eq.mp isName
  have lexeme := Token.isLexeme_of_mem_scan scanned (by rw [kind]; decide) (by rw [kind]; decide)
  rw [kind] at lexeme
  exact ⟨lexeme, (Bool.not_eq_true' _).mp noCase⟩

theorem statementTexts_eq (module : Module) (block : AlwaysBlock) :
    block.statementTexts module.statements = texts (module.trees block.body) :=
  rfl

/-- **The statement texts of an always block are read back** as one always block with the
same statements up to their lines, when the statements read back; and blocks whose
statements read back and have the same texts have the same statements. -/
theorem ofSource?_framedText {source : String} {module : Module} {block : AlwaysBlock}
    (parsed : ofSource? source = some module) (member : block ∈ module.alwaysBlocks)
    (reads : bodyReadsBack (module.trees block.body) = true) :
    (∃ again reread,
      ofSource? (Source.framedText (block.statementTexts module.statements)) = some again ∧
      again.alwaysBlocks = [reread] ∧
      (again.trees reread.body).map StatementTree.bare =
        (module.trees block.body).map StatementTree.bare) ∧
    ∀ otherSource otherModule otherBlock, ofSource? otherSource = some otherModule →
      otherBlock ∈ otherModule.alwaysBlocks →
      bodyReadsBack (otherModule.trees otherBlock.body) = true →
      Source.joined (otherBlock.statementTexts otherModule.statements) =
        Source.joined (block.statementTexts module.statements) →
      (otherModule.trees otherBlock.body).map StatementTree.bare =
        (module.trees block.body).map StatementTree.bare := by
  obtain ⟨again, reread, readAgain, only, same⟩ :=
    exists_of_framedText reads (isTargetName_of_mem_targets parsed member)
  refine ⟨⟨again, reread, ?_, only, same⟩, ?_⟩
  · rw [statementTexts_eq]
    exact readAgain
  · intro otherSource otherModule otherBlock otherParsed otherMember otherReads sameText
    obtain ⟨otherAgain, otherReread, otherReadAgain, otherOnly, otherSame⟩ :=
      exists_of_framedText otherReads (isTargetName_of_mem_targets otherParsed otherMember)
    rw [statementTexts_eq, statementTexts_eq] at sameText
    -- Equal texts are parsed to one module, and both blocks are told by it.
    have sameModule : otherAgain = again := by
      unfold Source.framedText at otherReadAgain
      rw [sameText] at otherReadAgain
      exact Option.some.inj (otherReadAgain.symm.trans readAgain)
    subst sameModule
    rw [only] at otherOnly
    cases otherOnly
    exact otherSame.symm.trans same

/-- A case statement in the alternative of a choice is read back. -/
theorem ofSource?_framedText_choice :
    ∃ module block,
      ofSource? "module t(); always @(c) if (c) q = 1; else case (c) 0, 1: q <= a + 1; endcase" =
        some module ∧ block ∈ module.alwaysBlocks ∧
      bodyReadsBack (module.trees block.body) = true ∧
      ∃ again reread,
        ofSource? (Source.framedText (block.statementTexts module.statements)) = some again ∧
        again.alwaysBlocks = [reread] ∧
        (again.trees reread.body).map StatementTree.bare =
          (module.trees block.body).map StatementTree.bare := by
  let statements : Pool Statement := ⟨#[.assign "q" "1" true 1, .assign "q" "a + 1" false 1,
    .select "c" [⟨["0", "1"], [1]⟩] [], .branch "c" [0] [2]]⟩
  let block : AlwaysBlock := ⟨["c"], [3], 1⟩
  have parsed :
      ofSource? "module t(); always @(c) if (c) q = 1; else case (c) 0, 1: q <= a + 1; endcase" =
        some { name := "t", alwaysBlocks := [block], statements := statements } := by decide +kernel
  have reads : bodyReadsBack (StatementTree.ofBody statements block.body) = true := by
    decide +kernel
  exact ⟨_, block, parsed, List.mem_cons_self, reads,
    (ofSource?_framedText parsed List.mem_cons_self reads).1⟩

/-- Every reading takes one pair of parentheses off, so a right side that keeps one is not
read back. -/
theorem framedText_parentheses :
    ∃ module block, ofSource? "module t(); always @(*) x = ((a)); endmodule" = some module ∧
      block ∈ module.alwaysBlocks ∧
      ¬ ∃ again reread,
        ofSource? (Source.framedText (block.statementTexts module.statements)) = some again ∧
        again.alwaysBlocks = [reread] ∧
        (again.trees reread.body).map StatementTree.bare =
          (module.trees block.body).map StatementTree.bare := by
  let module : Module :=
    { name := "t", alwaysBlocks := [⟨["*"], [0], 1⟩],
      statements := ⟨#[.assign "x" "( a )" true 1]⟩ }
  have parsed : ofSource? "module t(); always @(*) x = ((a)); endmodule" = some module := by
    decide +kernel
  refine ⟨module, ⟨["*"], [0], 1⟩, parsed, List.mem_cons_self, ?_⟩
  rintro ⟨again, reread, readAgain, only, same⟩
  have taken : ofSource? (Source.framedText ["x = ( a );"]) =
      some { name := "r", alwaysBlocks := [⟨["*"], [0], 1⟩],
             statements := ⟨#[.assign "x" "a" true 1]⟩ } := by decide +kernel
  cases readAgain.symm.trans taken
  cases only
  have texts : "a" = "( a )" := by
    injection (List.cons.inj same).1
  exact absurd texts (by decide)

end Module

end MiniVerilog
