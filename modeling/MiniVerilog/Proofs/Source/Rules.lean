import MiniVerilog.Proofs.Source.Reading
import MiniVerilog.Proofs.Statement.Placement

/-! # Rules for reading procedural code

What the front of a token list reads as, put together from what its parts read as:
one rule for each form of statement, one for each entry of a block and one for each
entry of a case statement. Both printers of procedural code are shown to be read back
with these rules.
-/

namespace MiniVerilog.Source

/-- A reserved word without a place. -/
def word (keyword : Keyword) : Token :=
  ⟨.keyword keyword, keyword.spelling, 0, 0⟩

/-- An operator or a punctuation mark without a place. -/
def mark (text : String) : Token :=
  ⟨.operator, text, 0, 0⟩

/-- One statement reads as these trees and leaves this rest. -/
def StatementReads (tokens : List Token) (trees : List StatementTree) (rest : List Token) : Prop :=
  treesOfBody (takeStatement tokens).1 = trees ∧ (takeStatement tokens).2 = rest

/-- The statements up to `end` read as these trees and leave this rest. -/
def BlockReads (tokens : List Token) (trees : List StatementTree) (rest : List Token) : Prop :=
  treesOfBody (takeBlock tokens).1 = trees ∧ (takeBlock tokens).2 = rest

/-- The entries up to `endcase` read as these alternatives and leave this rest. -/
structure ItemsRead (tokens : List Token) (arms : List (List String × List StatementTree))
    (otherwise : List StatementTree) (rest : List Token) : Prop where
  arms : treesOfArms (takeCaseItems tokens).1 = arms
  otherwise : treesOfOtherwise [] (takeCaseItems tokens).1 = otherwise
  rest : (takeCaseItems tokens).2 = rest

theorem treesOfBody_singleton (procedure : Procedure) :
    treesOfBody [procedure] = procedure.trees := by
  rw [treesOfBody, treesOfBody, List.append_nil]

theorem takeUntil_stop {stop : Token → Bool} {last : Token} (stops : stop last = true)
    (after : List Token) : takeUntil stop 0 (last :: after) = ([], last :: after) := by
  rw [takeUntil, stops, decide_eq_true (Int.le_refl 0), Bool.and_self, Bool.or_true, if_pos rfl]

/-- A text in parentheses. -/
theorem takeParenthesised_mark {tokens after : List Token} {words : List String}
    (taken : takeUntil (Token.isOperator ")") 0 tokens = (words, mark ")" :: after)) :
    takeParenthesised (mark "(" :: tokens) = (words, after) := by
  have opening : headIs (Token.isOperator "(") (mark "(" :: tokens) = true := rfl
  rw [takeParenthesised, opening]
  simp only [↓reduceIte, List.drop_succ_cons, List.drop_zero, taken]
  rfl

/-- The right side of an assignment without a delay. -/
theorem takeRightSide_mark {tokens after : List Token} {words : List String}
    (noDelay : headIs (Token.isOperator "#") tokens = false)
    (taken : takeUntil endsAssignment 0 tokens = (words, mark ";" :: after)) :
    takeRightSide tokens = (expression words, after) := by
  rw [takeRightSide, noDelay]
  simp only [Bool.false_eq_true, ↓reduceIte, taken]
  rfl

section Statement

variable {tokens rest last : List Token} {trees thenTrees elseTrees : List StatementTree}
  {words : List String}

/-- A block stands for its statements. -/
theorem StatementReads.block (block : BlockReads tokens trees rest)
    (noLabel : headIs (Token.isOperator ":") tokens = false) :
    StatementReads (word .begin_ :: tokens) trees rest := by
  have read : takeStatement (word .begin_ :: tokens) = takeBlock (skipBlockLabel tokens) :=
    takeStatement_cons (word .begin_) tokens
  have unlabelled : skipBlockLabel tokens = tokens := by
    unfold skipBlockLabel
    split
    · rename_i colon label others
      have noColon : colon.isOperator ":" = false := noLabel
      rw [noColon, Bool.false_and, if_neg Bool.false_ne_true]
    · rfl
  rw [unlabelled] at read
  rw [StatementReads, read]
  exact block

/-- A choice without an alternative ends where its body ends, if no `else` follows. -/
theorem StatementReads.branch (condition : takeParenthesised tokens = (words, rest))
    (thenPart : StatementReads rest thenTrees last)
    (noElse : headIs (Token.isKeyword .else_) last = false) :
    StatementReads (word .if_ :: tokens) [.branch (unwrap (joined words)) thenTrees []] last := by
  have read : takeStatement (word .if_ :: tokens) = takeBranch tokens :=
    takeStatement_cons (word .if_) tokens
  obtain ⟨thenRead, after⟩ := thenPart
  rw [StatementReads, read]
  simp only [takeBranch, condition, after, noElse, Bool.false_eq_true, ↓reduceIte]
  refine ⟨?_, trivial⟩
  rw [treesOfBody_singleton, Procedure.trees, thenRead, treesOfBody]

/-- A choice with an alternative. -/
theorem StatementReads.branch_else (condition : takeParenthesised tokens = (words, rest))
    (thenPart : StatementReads rest thenTrees (word .else_ :: last))
    {after : List Token} (elsePart : StatementReads last elseTrees after) :
    StatementReads (word .if_ :: tokens) [.branch (unwrap (joined words)) thenTrees elseTrees]
      after := by
  have read : takeStatement (word .if_ :: tokens) = takeBranch tokens :=
    takeStatement_cons (word .if_) tokens
  obtain ⟨thenRead, afterThen⟩ := thenPart
  obtain ⟨elseRead, afterElse⟩ := elsePart
  have isElse : headIs (Token.isKeyword .else_) (word .else_ :: last) = true := rfl
  rw [StatementReads, read]
  simp only [takeBranch, condition, afterThen, isElse, ↓reduceIte, List.drop_succ_cons,
    List.drop_zero]
  rw [treesOfBody_singleton, Procedure.trees, thenRead, elseRead]
  exact ⟨rfl, afterElse⟩

/-- A case statement. -/
theorem StatementReads.select {arms : List (List String × List StatementTree)}
    {otherwise : List StatementTree} (subject : takeParenthesised tokens = (words, rest))
    (items : ItemsRead rest arms otherwise last) :
    StatementReads (word .case_ :: tokens) [.select (unwrap (joined words)) arms otherwise]
      last := by
  have read : takeStatement (word .case_ :: tokens) = takeSelect tokens :=
    takeStatement_cons (word .case_) tokens
  rw [StatementReads, read]
  simp only [takeSelect, subject]
  rw [treesOfBody_singleton, Procedure.trees, items.arms, items.otherwise]
  exact ⟨rfl, items.rest⟩

/-- An assignment. -/
theorem StatementReads.assign {target : Token} (name : target.kind = .identifier)
    (noCase : isCaseVariant target = false) (blocking : Bool) {text : String}
    (right : takeRightSide tokens = (text, rest)) :
    StatementReads (target :: mark (if blocking then "=" else "<=") :: tokens)
      [.assign target.text text blocking target.line] rest := by
  have read : takeStatement (target :: mark (if blocking then "=" else "<=") :: tokens) =
      takeAssignment target (mark (if blocking then "=" else "<=") :: tokens) := by
    rw [takeStatement_cons, name]
    simp only [noCase, Bool.false_eq_true, ↓reduceIte]
  have ranges : skipRanges (mark (if blocking then "=" else "<=") :: tokens) =
      mark (if blocking then "=" else "<=") :: tokens := by
    rw [skipRanges]
    cases blocking <;> rfl
  rw [StatementReads, read, takeAssignment, ranges]
  simp only [List.drop_succ_cons, List.drop_zero, right]
  cases blocking
  · exact ⟨rfl, rfl⟩
  · exact ⟨rfl, rfl⟩

end Statement

theorem BlockReads.end_ (rest : List Token) : BlockReads (word .end_ :: rest) [] rest := by
  rw [BlockReads, takeBlock_cons]
  exact ⟨rfl, rfl⟩

/-- The token opens an assignment, a choice or a case statement. -/
def opensStatement (token : Token) : Bool :=
  token.isIdentifier || token.isKeyword .if_ || token.isKeyword .case_

/-- What opens a statement is a name, `if` or `case`. -/
theorem kind_of_opensStatement {token : Token} (opens : opensStatement token = true) :
    token.kind = .identifier ∨ token.kind = .keyword .if_ ∨ token.kind = .keyword .case_ := by
  unfold opensStatement at opens
  rw [Bool.or_eq_true, Bool.or_eq_true] at opens
  rcases opens with (name | branch) | select
  · exact .inl (beq_iff_eq.mp name)
  · exact .inr (.inl (beq_iff_eq.mp branch))
  · exact .inr (.inr (beq_iff_eq.mp select))

/-- What opens a statement ends no body and goes on with no other statement. -/
theorem headIs_eq_false_of_opens {tokens : List Token}
    (opens : headIs opensStatement tokens = true) :
    headIs (Token.isOperator ":") tokens = false ∧ headIs (Token.isKeyword .else_) tokens = false ∧
      headIs (Token.isKeyword .endmodule) tokens = false ∧
      headIs (Token.isKeyword .end_) tokens = false := by
  cases tokens with
  | nil => cases opens
  | cons first rest =>
      simp only [headIs, List.head?_cons, Option.any_some, Token.isOperator, Token.isKeyword]
      rcases kind_of_opensStatement opens with kind | kind | kind <;> rw [kind] <;>
        exact ⟨rfl, rfl, rfl, rfl⟩

theorem length_takeStatement_le (tokens : List Token) :
    (takeStatement tokens).2.length ≤ tokens.length :=
  (readStatement tokens).length_le

/-- **A statement that is opened takes a token at least.** -/
theorem length_takeStatement_lt {tokens : List Token}
    (opens : headIs opensStatement tokens = true) :
    (takeStatement tokens).2.length < tokens.length := by
  cases tokens with
  | nil => cases opens
  | cons first rest =>
      apply Nat.lt_succ_of_le
      have condition := length_takeParenthesised_le rest
      have select : (takeSelect rest).2.length ≤ rest.length :=
        Nat.le_trans (readCaseItems _).length_le condition
      rw [takeStatement_cons]
      rcases kind_of_opensStatement opens with kind | kind | kind <;> rw [kind]
      · dsimp only
        split
        · exact select
        · exact length_takeAssignment_le first rest
      · have thenPart := length_takeStatement_le (takeParenthesised rest).2
        have elsePart :=
          length_takeStatement_le ((takeStatement (takeParenthesised rest).2).2.drop 1)
        rw [List.length_drop] at elsePart
        simp only [takeBranch]
        split
        · simp only
          omega
        · exact Nat.le_trans thenPart condition
      · exact select

/-- A statement in a block. -/
theorem BlockReads.cons {tokens after last : List Token} {trees others : List StatementTree}
    (opens : headIs opensStatement tokens = true)
    (statement : StatementReads tokens trees after) (block : BlockReads after others last) :
    BlockReads tokens (trees ++ others) last := by
  have shorter := length_takeStatement_lt opens
  obtain ⟨-, -, noEndmodule, noEnd⟩ := headIs_eq_false_of_opens opens
  obtain ⟨read, left⟩ := statement
  rw [left] at shorter
  obtain ⟨following, rest⟩ := block
  cases tokens with
  | nil => cases opens
  | cons first tokens =>
      change first.isKeyword .endmodule = false at noEndmodule
      change first.isKeyword .end_ = false at noEnd
      rw [BlockReads, takeBlock_cons, noEndmodule, noEnd]
      simp only [Bool.false_eq_true, ↓reduceIte, left, if_pos shorter]
      rw [treesOfBody_append, read, following]
      exact ⟨rfl, rest⟩

theorem ItemsRead.endcase (rest : List Token) : ItemsRead (word .endcase :: rest) [] [] rest := by
  have read : takeCaseItems (word .endcase :: rest) = ([], rest) :=
    takeCaseItems_cons (word .endcase) rest
  constructor <;> rw [read] <;> rfl

/-- The default body, which is the last one written. -/
theorem ItemsRead.default {tokens last : List Token} {trees : List StatementTree}
    (body : StatementReads tokens trees (word .endcase :: last)) :
    ItemsRead (word .default_ :: mark ":" :: tokens) [] trees last := by
  obtain ⟨read, left⟩ := body
  have last_ : takeCaseItems (word .endcase :: last) = ([], last) :=
    takeCaseItems_cons (word .endcase) last
  have items : takeCaseItems (word .default_ :: mark ":" :: tokens) =
      ([.otherwise (takeStatement tokens).1], last) := by
    rw [takeCaseItems_cons]
    change (CaseItem.otherwise (takeStatement tokens).1 ::
      (takeCaseItems (takeStatement tokens).2).1, (takeCaseItems (takeStatement tokens).2).2) = _
    rw [left, last_]
  constructor <;> rw [items]
  · rfl
  · exact read

/-- An alternative with its labels. -/
theorem ItemsRead.arm {first : Token} {tokens after rest last : List Token} {words : List String}
    {trees otherwise : List StatementTree} {arms : List (List String × List StatementTree)}
    (noDefault : first.isKeyword .default_ = false)
    (labelled : takeUntil endsLabels 0 (first :: tokens) = (words, mark ":" :: after))
    (body : StatementReads after trees rest) (items : ItemsRead rest arms otherwise last) :
    ItemsRead (first :: tokens) ((labels words, trees) :: arms) otherwise last := by
  obtain ⟨read, left⟩ := body
  -- The reader asks for `endmodule` and `endcase` first. The labels would stop at either at once,
  -- and then their colon would be that word.
  have stops (keyword : Keyword) (isWord : first.isKeyword keyword = true)
      (ends : first.isKeyword .endmodule = true ∨ endsLabels first = true) : False := by
    have stopped : takeUntil endsLabels 0 (first :: tokens) = ([], first :: tokens) := by
      obtain endmodule | ends := ends
      · rw [takeUntil, endmodule, Bool.true_or, if_pos rfl]
      · exact takeUntil_stop ends tokens
    rw [stopped] at labelled
    cases labelled
    cases isWord
  have noEndmodule : first.isKeyword .endmodule = false :=
    Bool.eq_false_iff.mpr fun endmodule => stops .endmodule endmodule (.inl endmodule)
  have noEndcase : first.isKeyword .endcase = false :=
    Bool.eq_false_iff.mpr fun endcase => stops .endcase endcase (.inr (by
      rw [endsLabels, endcase, Bool.or_true, Bool.true_or]))
  have entry : takeCaseItems (first :: tokens) =
      (.arm (labels words) (takeStatement after).1 :: (takeCaseItems rest).1,
        (takeCaseItems rest).2) := by
    rw [takeCaseItems_cons, noEndmodule, noEndcase, noDefault, labelled]
    change (CaseItem.arm (labels words) (takeStatement after).1 ::
      (takeCaseItems (takeStatement after).2).1, (takeCaseItems (takeStatement after).2).2) = _
    rw [left]
  constructor <;> rw [entry]
  · rw [treesOfArms, read, items.arms]
  · exact items.otherwise
  · exact items.rest

end MiniVerilog.Source
