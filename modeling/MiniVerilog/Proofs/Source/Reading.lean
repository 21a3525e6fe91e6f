import MiniVerilog.Source.Procedure

/-! # What the readers of procedural code do

The readers carry a bound on the rest, which makes them end. Here is what they read
without it, as equations over token lists.
-/

namespace MiniVerilog.Source

/-- The statements at the front and the rest. -/
def takeStatement (tokens : List Token) : List Procedure × List Token :=
  ((readStatement tokens).value, (readStatement tokens).rest)

/-- The statements up to `end` and the rest. -/
def takeBlock (tokens : List Token) : List Procedure × List Token :=
  ((readBlock tokens).value, (readBlock tokens).rest)

/-- The entries up to `endcase` and the rest. -/
def takeCaseItems (tokens : List Token) : List CaseItem × List Token :=
  ((readCaseItems tokens).value, (readCaseItems tokens).rest)

/-- A choice after its `if`. -/
def takeBranch (tokens : List Token) : List Procedure × List Token :=
  let condition := takeParenthesised tokens
  let thenPart := takeStatement condition.2
  if headIs (Token.isKeyword .else_) thenPart.2 then
    let elsePart := takeStatement (thenPart.2.drop 1)
    ([.branch (unwrap (joined condition.1)) thenPart.1 elsePart.1], elsePart.2)
  else ([.branch (unwrap (joined condition.1)) thenPart.1 []], thenPart.2)

/-- A case statement after its first word. -/
def takeSelect (tokens : List Token) : List Procedure × List Token :=
  let subject := takeParenthesised tokens
  let items := takeCaseItems subject.2
  ([.select (unwrap (joined subject.1)) items.1], items.2)

/-- A loop before its body. -/
def takeLoop (tokens : List Token) : List Procedure × List Token :=
  let body := takeStatement tokens
  ([.loop body.1], body.2)

/-- A statement that is empty, delayed or not understood. -/
def takeOther (first : Token) (rest : List Token) : List Procedure × List Token :=
  if first.isOperator ";" then ([], rest)
  else if first.isOperator "#" then takeStatement (skipIf isDelay rest)
  else ([], skipStatement 0 (first :: rest))

/-- **What the first token opens.** -/
theorem takeStatement_cons (first : Token) (rest : List Token) :
    takeStatement (first :: rest) =
      match first.kind with
      | .keyword .begin_ => takeBlock (skipBlockLabel rest)
      | .keyword .if_ => takeBranch rest
      | .keyword .case_ => takeSelect rest
      | .identifier =>
        if isCaseVariant first then takeSelect rest else takeAssignment first rest
      | .keyword .end_ | .keyword .endcase | .keyword .endmodule | .keyword .else_ =>
        ([], first :: rest)
      | .keyword .for_ | .keyword .while_ | .keyword .repeat_ =>
        takeLoop (takeParenthesised rest).2
      | .keyword .forever => takeLoop rest
      | _ => takeOther first rest := by
  rw [takeStatement, readStatement]
  cases kind : first.kind with
  | keyword word =>
      cases word with
      | if_ =>
          unfold takeBranch takeStatement
          dsimp only
          split <;> rfl
      | begin_ | case_ | end_ | endcase | endmodule | else_ | for_ | while_ | repeat_ | forever =>
          rfl
      | _ =>
          dsimp only [takeOther]
          split
          · rfl
          · split <;> rfl
  | identifier =>
      dsimp only
      split <;> rfl
  | _ =>
      dsimp only [takeOther]
      split
      · rfl
      · split <;> rfl

/-- **A block goes on up to its `end`.** A token that starts no statement is skipped. -/
theorem takeBlock_cons (first : Token) (rest : List Token) :
    takeBlock (first :: rest) =
      if first.isKeyword .endmodule then ([], first :: rest)
      else if first.isKeyword .end_ then ([], rest)
      else
        let statement := takeStatement (first :: rest)
        let following := takeBlock
          (if statement.2.length < (first :: rest).length then statement.2 else rest)
        (statement.1 ++ following.1, following.2) := by
  rw [takeBlock, readBlock]
  split
  · rfl
  · split
    · rfl
    · dsimp only [takeStatement]
      split <;> rfl

/-- **A case statement goes on up to its `endcase`.** -/
theorem takeCaseItems_cons (first : Token) (rest : List Token) :
    takeCaseItems (first :: rest) =
      if first.isKeyword .endmodule then ([], first :: rest)
      else if first.isKeyword .endcase then ([], rest)
      else if first.isKeyword .default_ then
        let body := takeStatement (skipIf (Token.isOperator ":") rest)
        let following := takeCaseItems body.2
        (.otherwise body.1 :: following.1, following.2)
      else
        match takeUntil endsLabels 0 (first :: rest) with
        | (words, colon :: after) =>
          if colon.isOperator ":" then
            let body := takeStatement after
            let following := takeCaseItems body.2
            (.arm (labels words) body.1 :: following.1, following.2)
          else
            takeCaseItems
              (if (colon :: after).length < (first :: rest).length then colon :: after else rest)
        | (_, []) => ([], []) := by
  rw [takeCaseItems, readCaseItems]
  split
  · rfl
  · split
    · rfl
    · split
      · rfl
      · split
        · rename_i read _
          rw [read]
          dsimp only [takeStatement]
          split
          · rfl
          · split <;> rfl
        · rename_i read _
          rw [read]
          rfl

theorem takeStatement_nil : takeStatement [] = ([], []) := by
  rw [takeStatement, readStatement]
  rfl

theorem takeBlock_nil : takeBlock [] = ([], []) := by
  rw [takeBlock, readBlock]
  rfl

theorem takeCaseItems_nil : takeCaseItems [] = ([], []) := by
  rw [takeCaseItems, readCaseItems]
  rfl

end MiniVerilog.Source
