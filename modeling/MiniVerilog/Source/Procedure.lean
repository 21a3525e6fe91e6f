import MiniVerilog.Source.Cursor
import MiniVerilog.Source.Phrase

/-! # Procedural code in source text

Statements as they are written, and how they are read. A block of `begin` and
`end` stands for its statements. The bodies of loops are kept apart, because
loops are not simulated. Reading never fails: what is not understood is skipped.
-/

namespace MiniVerilog.Source

mutual

/-- A statement as it is written. -/
inductive Procedure where
  | assign (target expression : String) (blocking : Bool) (line : Nat)
  | branch (condition : String) (thenBody elseBody : List Procedure)
  | select (subject : String) (items : List CaseItem)
  /-- A loop with its body. -/
  | loop (body : List Procedure)

/-- An entry of a case statement. -/
inductive CaseItem where
  | arm (labels : List String) (body : List Procedure)
  | otherwise (body : List Procedure)

end

theorem length_le_cons (first : Token) (rest : List Token) :
    rest.length ≤ (first :: rest).length :=
  Nat.le_succ _

/-- What was read from the front of a token list, with the rest of the list. -/
structure Reading (α : Type) (tokens : List Token) where
  value : α
  rest : List Token
  length_le : rest.length ≤ tokens.length

namespace Reading

/-- Nothing was read. -/
def nothing {α : Type} (value : α) (tokens : List Token) : Reading α tokens :=
  ⟨value, tokens, Nat.le_refl _⟩

/-- One token was read. -/
def after {α : Type} (value : α) (first : Token) (rest : List Token) : Reading α (first :: rest) :=
  ⟨value, rest, length_le_cons first rest⟩

/-- All tokens were read. -/
def finished {α : Type} (value : α) (tokens : List Token) : Reading α tokens :=
  ⟨value, [], Nat.zero_le _⟩

/-- The same reading of a longer list. -/
def widen {α β : Type} {shorter longer : List Token} (reading : Reading α shorter)
    (change : α → β) (le : shorter.length ≤ longer.length) : Reading β longer :=
  ⟨change reading.value, reading.rest, Nat.le_trans reading.length_le le⟩

end Reading

/-- The tokens after the label of a named block. -/
def skipBlockLabel : List Token → List Token
  | colon :: label :: rest =>
    if colon.isOperator ":" && label.isIdentifier then rest else colon :: label :: rest
  | tokens => tokens

/-- What is left to read is no longer than the list that a reader was given. The recursion of the
readers ends by this and the lemmas below. -/
theorem length_skipBlockLabel_le (tokens : List Token) :
    (skipBlockLabel tokens).length ≤ tokens.length := by
  unfold skipBlockLabel
  split
  · split
    · simp only [List.length_cons]
      omega
    · exact Nat.le_refl _
  · exact Nat.le_refl _

/-- A delay before a statement is a number or a name. -/
def isDelay (token : Token) : Bool :=
  token.kind == .number || token.isIdentifier

/-- The words that open a case statement although they are identifiers. -/
def isCaseVariant (token : Token) : Bool :=
  token.text == "casex" || token.text == "casez"

/-- The tokens at which the right side of an assignment ends. -/
def endsAssignment (token : Token) : Bool :=
  token.isOperator ";" || token.isKeyword .end_ || token.isKeyword .endcase

/-- Reads the right side of an assignment. A delay may stand before it. -/
def takeRightSide (tokens : List Token) : String × List Token :=
  let tokens := if headIs (Token.isOperator "#") tokens then tokens.drop 2 else tokens
  let (words, rest) := takeUntil endsAssignment 0 tokens
  (expression words, skipIf (Token.isOperator ";") rest)

/-- The right side of an assignment leaves no more tokens than there were. -/
theorem length_takeRightSide_le (tokens : List Token) :
    (takeRightSide tokens).2.length ≤ tokens.length := by
  simp only [takeRightSide]
  refine Nat.le_trans (length_skipIf_le _ _) (Nat.le_trans (length_takeUntil_le _ _ _) ?_)
  split
  · simp
  · exact Nat.le_refl _

/-- Reads an assignment after its target. Without `=` or `<=` there is none. -/
def takeAssignment (target : Token) (tokens : List Token) : List Procedure × List Token :=
  let tokens := skipRanges tokens
  if headIs (Token.isOperator "=") tokens then
    let (text, rest) := takeRightSide (tokens.drop 1)
    ([.assign target.text text true target.line], rest)
  else if headIs (Token.isOperator "<=") tokens then
    let (text, rest) := takeRightSide (tokens.drop 1)
    ([.assign target.text text false target.line], rest)
  else ([], skipStatement 0 tokens)

/-- An assignment leaves no more tokens than there were, also where it turns out to be none. -/
theorem length_takeAssignment_le (target : Token) (tokens : List Token) :
    (takeAssignment target tokens).2.length ≤ tokens.length := by
  have ranges := length_skipRanges_le tokens
  have right := length_takeRightSide_le ((skipRanges tokens).drop 1)
  have skipped := length_skipStatement_le 0 (skipRanges tokens)
  simp only [List.length_drop] at right
  simp only [takeAssignment]
  split
  · simp only
    omega
  · split
    · simp only
      omega
    · simp only
      omega

/-- The words of the labels of a case arm end at these tokens. -/
def endsLabels (token : Token) : Bool :=
  token.isOperator ":" || token.isKeyword .endcase || token.isKeyword .end_

theorem length_skipBlockLabel_le_cons (first : Token) (rest : List Token) :
    (skipBlockLabel rest).length ≤ (first :: rest).length :=
  Nat.le_succ_of_le (length_skipBlockLabel_le rest)

theorem length_takeParenthesised_le_cons (first : Token) (rest : List Token) :
    (takeParenthesised rest).2.length ≤ (first :: rest).length :=
  Nat.le_succ_of_le (length_takeParenthesised_le rest)

theorem length_le_cons_of_le_takeParenthesised (first : Token) (rest after : List Token)
    (le : after.length ≤ (takeParenthesised rest).2.length) :
    after.length ≤ (first :: rest).length :=
  Nat.le_trans le (length_takeParenthesised_le_cons first rest)

theorem length_drop_le_cons_of_le_takeParenthesised (first : Token) (rest after : List Token)
    (le : after.length ≤ (takeParenthesised rest).2.length) :
    (after.drop 1).length ≤ (first :: rest).length :=
  Nat.le_trans (List.length_drop ▸ Nat.sub_le _ _)
    (length_le_cons_of_le_takeParenthesised first rest after le)

theorem length_takeAssignment_le_cons (target : Token) (rest : List Token) :
    (takeAssignment target rest).2.length ≤ (target :: rest).length :=
  Nat.le_succ_of_le (length_takeAssignment_le target rest)

theorem length_skipDelay_le_cons (first : Token) (rest : List Token) :
    (skipIf isDelay rest).length ≤ (first :: rest).length :=
  Nat.le_succ_of_le (length_skipIf_le isDelay rest)

theorem length_skipStatement_le_cons (first : Token) (rest : List Token) :
    (skipStatement 0 (first :: rest)).length ≤ (first :: rest).length :=
  length_skipStatement_le 0 (first :: rest)

theorem length_le_cons_of_le_skipColon (first : Token) (rest after : List Token)
    (le : after.length ≤ (skipIf (Token.isOperator ":") rest).length) :
    after.length ≤ (first :: rest).length :=
  Nat.le_succ_of_le (Nat.le_trans le (length_skipIf_le _ rest))

theorem length_takeLabels_le_cons (first : Token) (rest : List Token) :
    (takeUntil endsLabels 0 (first :: rest)).2.length ≤ (first :: rest).length :=
  length_takeUntil_le endsLabels 0 (first :: rest)

theorem length_le_cons_of_le_of_cons_le {tokens after others : List Token} (colon : Token)
    (le : others.length ≤ after.length) (bounded : (colon :: after).length ≤ tokens.length) :
    others.length ≤ tokens.length :=
  Nat.le_trans le (Nat.le_of_succ_le bounded)

mutual

/-- Reads one statement, which stands for several when it is a block and for none
when it is skipped. -/
def readStatement (tokens : List Token) : Reading (List Procedure) tokens :=
  match tokens with
  | [] => .nothing [] []
  | first :: rest =>
    match first.kind with
    | .keyword .begin_ =>
      (readBlock (skipBlockLabel rest)).widen id (length_skipBlockLabel_le_cons first rest)
    | .keyword .if_ =>
      let condition := unwrap (joined (takeParenthesised rest).1)
      match readStatement (takeParenthesised rest).2 with
      | ⟨thenBody, after, thenLength⟩ =>
        if headIs (Token.isKeyword .else_) after then
          (readStatement (after.drop 1)).widen
            (fun elseBody => [.branch condition thenBody elseBody])
            (length_drop_le_cons_of_le_takeParenthesised first rest after thenLength)
        else
          ⟨[.branch condition thenBody []], after,
            length_le_cons_of_le_takeParenthesised first rest after thenLength⟩
    | .keyword .case_ =>
      (readCaseItems (takeParenthesised rest).2).widen
        (fun items => [.select (unwrap (joined (takeParenthesised rest).1)) items])
        (length_takeParenthesised_le_cons first rest)
    | .identifier =>
      if isCaseVariant first then
        (readCaseItems (takeParenthesised rest).2).widen
          (fun items => [.select (unwrap (joined (takeParenthesised rest).1)) items])
          (length_takeParenthesised_le_cons first rest)
      else
        ⟨(takeAssignment first rest).1, (takeAssignment first rest).2,
          length_takeAssignment_le_cons first rest⟩
    | .keyword .end_ | .keyword .endcase | .keyword .endmodule | .keyword .else_ =>
      .nothing [] (first :: rest)
    | .keyword .for_ | .keyword .while_ | .keyword .repeat_ =>
      (readStatement (takeParenthesised rest).2).widen (fun body => [.loop body])
        (length_takeParenthesised_le_cons first rest)
    | .keyword .forever =>
      (readStatement rest).widen (fun body => [.loop body]) (length_le_cons first rest)
    | _ =>
      if first.isOperator ";" then .after [] first rest
      else if first.isOperator "#" then
        (readStatement (skipIf isDelay rest)).widen id (length_skipDelay_le_cons first rest)
      else ⟨[], skipStatement 0 (first :: rest), length_skipStatement_le_cons first rest⟩
termination_by 2 * tokens.length
decreasing_by
  · have := length_skipBlockLabel_le rest
    simp only [List.length_cons]
    omega
  · have := length_takeParenthesised_le rest
    simp only [List.length_cons]
    omega
  · have := length_takeParenthesised_le rest
    simp only [List.length_cons, List.length_drop]
    omega
  · have := length_takeParenthesised_le rest
    simp only [List.length_cons]
    omega
  · have := length_takeParenthesised_le rest
    simp only [List.length_cons]
    omega
  · have := length_takeParenthesised_le rest
    simp only [List.length_cons]
    omega
  · simp only [List.length_cons]
    omega
  · have := length_skipIf_le isDelay rest
    simp only [List.length_cons]
    omega

/-- Reads the statements of a block and its `end`. A token that starts no
statement is skipped. -/
def readBlock (tokens : List Token) : Reading (List Procedure) tokens :=
  match tokens with
  | [] => .nothing [] []
  | first :: rest =>
    if first.isKeyword .endmodule then .nothing [] (first :: rest)
    else if first.isKeyword .end_ then .after [] first rest
    else
      match readStatement (first :: rest) with
      | ⟨statements, after, afterLength⟩ =>
        if after.length < (first :: rest).length then
          (readBlock after).widen (statements ++ ·) afterLength
        else (readBlock rest).widen (statements ++ ·) (length_le_cons first rest)
termination_by 2 * tokens.length + 1
decreasing_by all_goals simp only [List.length_cons] at *; omega

/-- Reads the entries of a case statement and its `endcase`. -/
def readCaseItems (tokens : List Token) : Reading (List CaseItem) tokens :=
  match tokens with
  | [] => .nothing [] []
  | first :: rest =>
    if first.isKeyword .endmodule then .nothing [] (first :: rest)
    else if first.isKeyword .endcase then .after [] first rest
    else if first.isKeyword .default_ then
      match readStatement (skipIf (Token.isOperator ":") rest) with
      | ⟨body, after, bodyLength⟩ =>
        (readCaseItems after).widen (.otherwise body :: ·)
          (length_le_cons_of_le_skipColon first rest after bodyLength)
    else
      match takeUntil endsLabels 0 (first :: rest), length_takeLabels_le_cons first rest with
      | (words, colon :: after), afterLength =>
        if colon.isOperator ":" then
          match readStatement after with
          | ⟨body, others, bodyLength⟩ =>
            (readCaseItems others).widen (.arm (labels words) body :: ·)
              (length_le_cons_of_le_of_cons_le colon bodyLength afterLength)
        else if (colon :: after).length < (first :: rest).length then
          (readCaseItems (colon :: after)).widen id afterLength
        else (readCaseItems rest).widen id (length_le_cons first rest)
      | (_, []), _ => .finished [] (first :: rest)
termination_by 2 * tokens.length + 1
decreasing_by
  · have := length_skipIf_le (Token.isOperator ":") rest
    simp only [List.length_cons]
    omega
  · have := length_skipIf_le (Token.isOperator ":") rest
    simp only [List.length_cons]
    omega
  · simp only [List.length_cons] at *
    omega
  · simp only [List.length_cons] at *
    omega
  · simp only [List.length_cons] at *
    omega
  · simp only [List.length_cons]
    omega

end

end MiniVerilog.Source
