import MiniVerilog.Module.Elaborate
import MiniVerilog.Proofs.Source.Reading
import MiniVerilog.Proofs.Token.Lexeme

/-! # Reading does not look at places

What is read from tokens without their places is what is read from the tokens, with
the lines taken out (`MiniVerilog.Module.ofTokens?_bare`).
-/

namespace MiniVerilog.Source

open Token (bare)

@[simp] theorem isKeyword_bare (word : Keyword) (token : Token) :
    token.bare.isKeyword word = token.isKeyword word := by
  cases token
  rfl

@[simp] theorem isOperator_bare (text : String) (token : Token) :
    token.bare.isOperator text = token.isOperator text := by
  cases token
  rfl

@[simp] theorem isIdentifier_bare (token : Token) :
    token.bare.isIdentifier = token.isIdentifier := by
  cases token
  rfl

@[simp] theorem nesting_bare (token : Token) : token.bare.nesting = token.nesting := by
  cases token
  rfl

/-- A property of tokens that does not depend on their places. -/
class IgnoresPlace (property : Token → Bool) : Prop where
  bare (token : Token) : property token.bare = property token

instance (text : String) : IgnoresPlace (Token.isOperator text) := ⟨fun _ => rfl⟩

instance (word : Keyword) : IgnoresPlace (Token.isKeyword word) := ⟨fun _ => rfl⟩

instance : IgnoresPlace Token.isIdentifier := ⟨fun _ => rfl⟩

instance (first second : String) :
    IgnoresPlace fun token => token.isOperator first || token.isOperator second := ⟨fun _ => rfl⟩

section Cursor

variable (property : Token → Bool) [IgnoresPlace property]

/-- The first token has a property or not wherever it stands. -/
theorem headIs_bare (tokens : List Token) :
    headIs property (tokens.map bare) = headIs property tokens := by
  cases tokens with
  | nil => rfl
  | cons token rest => exact IgnoresPlace.bare token

/-- Skipping a token does not look at places. For every reader below, taking the places away first
gives what it reads without places. -/
theorem skipIf_bare (tokens : List Token) :
    skipIf property (tokens.map bare) = (skipIf property tokens).map bare := by
  cases tokens with
  | nil => rfl
  | cons token rest =>
      simp only [List.map_cons, skipIf, IgnoresPlace.bare]
      split <;> rfl

/-- The words of an expression do not depend on places. -/
theorem takeUntil_bare (depth : Int) (tokens : List Token) :
    takeUntil property depth (tokens.map bare) =
      Prod.map id (List.map bare) (takeUntil property depth tokens) := by
  induction tokens generalizing depth with
  | nil => rfl
  | cons token rest ih =>
      simp only [List.map_cons, takeUntil, IgnoresPlace.bare, nesting_bare, ih]
      split <;> rfl

end Cursor

/-- Skipping a statement does not look at places. -/
theorem skipStatement_bare (depth : Int) (tokens : List Token) :
    skipStatement depth (tokens.map bare) = (skipStatement depth tokens).map bare := by
  induction tokens generalizing depth with
  | nil => rfl
  | cons token rest ih =>
      simp only [List.map_cons, skipStatement, isKeyword_bare, isOperator_bare, nesting_bare, ih]
      split
      · rfl
      · split <;> rfl

/-- Skipping past a reserved word does not look at places. -/
theorem skipPast_bare (word : Keyword) (tokens : List Token) :
    skipPast word (tokens.map bare) = (skipPast word tokens).map bare := by
  induction tokens with
  | nil => rfl
  | cons token rest ih =>
      simp only [List.map_cons, skipPast, isKeyword_bare, ih]
      split <;> rfl

/-- The words in parentheses do not depend on places. -/
theorem takeParenthesised_bare (tokens : List Token) :
    takeParenthesised (tokens.map bare) =
      Prod.map id (List.map bare) (takeParenthesised tokens) := by
  simp only [takeParenthesised, headIs_bare, ← List.map_drop,
    takeUntil_bare, Prod.map, skipIf_bare, id]
  split <;> rfl

/-- The bounds of a range do not depend on places. -/
theorem takeRange_bare (tokens : List Token) :
    takeRange (tokens.map bare) = Prod.map id (List.map bare) (takeRange tokens) := by
  simp only [takeRange, headIs_bare, ← List.map_drop,
    takeUntil_bare, Prod.map, skipIf_bare, id]
  split <;> rfl

theorem takeRange?_bare (tokens : List Token) :
    takeRange? (tokens.map bare) = Prod.map id (List.map bare) (takeRange? tokens) := by
  simp only [takeRange?, headIs_bare, ← List.map_drop,
    takeRange_bare, Prod.map, id]
  split <;> rfl

/-- Skipping ranges does not look at places. The induction is on the number of tokens. -/
theorem skipRanges_bare (tokens : List Token) :
    skipRanges (tokens.map bare) = (skipRanges tokens).map bare := by
  fun_induction skipRanges tokens with
  | case1 => rw [List.map_nil, skipRanges]
  | case2 token rest bracket ih =>
      rw [List.map_cons, skipRanges, isOperator_bare, if_pos bracket, takeRange_bare]
      exact ih
  | case3 token rest other =>
      rw [List.map_cons, skipRanges, isOperator_bare, if_neg other]

/-- Whether a comma goes on with a list does not depend on places. -/
theorem commaContinues_bare (tokens : List Token) :
    commaContinues (tokens.map bare) = commaContinues tokens := by
  unfold commaContinues
  cases tokens with
  | nil => rfl
  | cons comma rest => cases rest <;> rfl

mutual

/-- A statement without its line. -/
def Procedure.bare : Procedure → Procedure
  | .assign target expression blocking _ => .assign target expression blocking 0
  | .branch condition thenBody elseBody =>
    .branch condition (bareBody thenBody) (bareBody elseBody)
  | .select subject items => .select subject (bareItems items)
  | .loop body => .loop (bareBody body)

/-- The statements of a body without their lines. -/
def bareBody : List Procedure → List Procedure
  | [] => []
  | procedure :: following => procedure.bare :: bareBody following

/-- The entries of a case statement without their lines. -/
def bareItems : List CaseItem → List CaseItem
  | [] => []
  | .arm labels body :: following => .arm labels (bareBody body) :: bareItems following
  | .otherwise body :: following => .otherwise (bareBody body) :: bareItems following

end

theorem bareBody_append (first others : List Procedure) :
    bareBody (first ++ others) = bareBody first ++ bareBody others := by
  induction first with
  | nil => rfl
  | cons procedure first ih => rw [List.cons_append, bareBody, ih, bareBody, List.cons_append]

instance : IgnoresPlace endsAssignment := ⟨fun _ => rfl⟩

instance : IgnoresPlace endsLabels := ⟨fun _ => rfl⟩

instance : IgnoresPlace isDelay := ⟨fun _ => rfl⟩

/-- Skipping the label of a block does not look at places. -/
theorem skipBlockLabel_bare (tokens : List Token) :
    skipBlockLabel (tokens.map bare) = (skipBlockLabel tokens).map bare := by
  match tokens with
  | [] => rfl
  | [_] => rfl
  | colon :: label :: rest =>
      simp only [List.map_cons, skipBlockLabel, isOperator_bare, isIdentifier_bare,
        apply_ite (List.map bare)]

theorem takeRightSide_bare (tokens : List Token) :
    takeRightSide (tokens.map bare) = Prod.map id (List.map bare) (takeRightSide tokens) := by
  simp only [takeRightSide, headIs_bare, ← List.map_drop]
  split <;> simp only [takeUntil_bare, Prod.map, skipIf_bare, id]

/-- Nothing of an assignment but its line depends on places. -/
theorem takeAssignment_bare (target : Token) (tokens : List Token) :
    takeAssignment target.bare (tokens.map bare) =
      Prod.map bareBody (List.map bare) (takeAssignment target tokens) := by
  simp only [takeAssignment, skipRanges_bare, headIs_bare, ← List.map_drop, takeRightSide_bare,
    skipStatement_bare, Prod.map, id]
  split
  · rfl
  · split <;> rfl

/-- The readers of procedural code do not look at the places of these tokens. -/
structure ReadsBare (tokens : List Token) : Prop where
  statement : takeStatement (tokens.map bare) =
    Prod.map bareBody (List.map bare) (takeStatement tokens)
  block : takeBlock (tokens.map bare) = Prod.map bareBody (List.map bare) (takeBlock tokens)
  items : takeCaseItems (tokens.map bare) =
    Prod.map bareItems (List.map bare) (takeCaseItems tokens)

theorem ReadsBare.nil : ReadsBare [] where
  statement := by rw [List.map_nil, takeStatement_nil]; rfl
  block := by rw [List.map_nil, takeBlock_nil]; rfl
  items := by rw [List.map_nil, takeCaseItems_nil]; rfl

section Step

variable {first : Token} {rest : List Token}
  (shorter : ∀ others : List Token, others.length ≤ rest.length → ReadsBare others)

include shorter

/-- A branch is read without places if the statements in it are. -/
theorem takeBranch_bare :
    takeBranch (rest.map bare) = Prod.map bareBody (List.map bare) (takeBranch rest) := by
  have condition := length_takeParenthesised_le rest
  have thenPart := shorter _ condition
  have elsePart := shorter ((takeStatement (takeParenthesised rest).2).2.drop 1) <| by
    have inside := (readStatement (takeParenthesised rest).2).length_le
    rw [List.length_drop]
    exact Nat.le_trans (Nat.sub_le _ _) (Nat.le_trans inside condition)
  simp only [takeBranch, takeParenthesised_bare, Prod.map, thenPart.statement, headIs_bare,
    ← List.map_drop, elsePart.statement, id]
  split <;> rfl

/-- A case statement is read without places if its entries are. -/
theorem takeSelect_bare :
    takeSelect (rest.map bare) = Prod.map bareBody (List.map bare) (takeSelect rest) := by
  have items := shorter _ (length_takeParenthesised_le rest)
  simp only [takeSelect, takeParenthesised_bare, Prod.map, items.items, id]
  rfl

theorem takeLoop_bare {others : List Token} (le : others.length ≤ rest.length) :
    takeLoop (others.map bare) = Prod.map bareBody (List.map bare) (takeLoop others) := by
  simp only [takeLoop, (shorter others le).statement, Prod.map]
  rfl

/-- What starts with no reserved word of its own is read without places. -/
theorem takeOther_bare :
    takeOther first.bare (rest.map bare) =
      Prod.map bareBody (List.map bare) (takeOther first rest) := by
  have delayed := (shorter _ (length_skipIf_le isDelay rest)).statement
  have skipped := skipStatement_bare 0 (first :: rest)
  rw [List.map_cons] at skipped
  simp only [takeOther, isOperator_bare, skipIf_bare, delayed, skipped]
  split
  · rfl
  · split <;> rfl

/-- **Statements do not depend on the places of tokens** but for their lines, when shorter lists do
not. -/
theorem takeStatement_bare_cons :
    takeStatement ((first :: rest).map bare) =
      Prod.map bareBody (List.map bare) (takeStatement (first :: rest)) := by
  rw [takeStatement_cons, List.map_cons, takeStatement_cons, Token.kind_bare]
  cases kind : first.kind with
  | keyword word =>
      cases word with
      | begin_ =>
          dsimp only
          rw [skipBlockLabel_bare]
          exact (shorter _ (length_skipBlockLabel_le rest)).block
      | if_ => exact takeBranch_bare shorter
      | case_ => exact takeSelect_bare shorter
      | for_ | while_ | repeat_ =>
          dsimp only
          rw [takeParenthesised_bare]
          exact takeLoop_bare shorter (length_takeParenthesised_le rest)
      | forever => exact takeLoop_bare shorter (Nat.le_refl _)
      | end_ | endcase | endmodule | else_ => rfl
      | _ => exact takeOther_bare shorter
  | identifier =>
      dsimp only
      rw [show isCaseVariant first.bare = isCaseVariant first from rfl]
      split
      · exact takeSelect_bare shorter
      · exact takeAssignment_bare first rest
  | _ => exact takeOther_bare shorter

/-- **Blocks do not depend on the places of tokens** but for the lines of statements, when shorter
lists do not. -/
theorem takeBlock_bare_cons :
    takeBlock ((first :: rest).map bare) =
      Prod.map bareBody (List.map bare) (takeBlock (first :: rest)) := by
  have statement : takeStatement ((first :: rest).map bare) =
      Prod.map bareBody (List.map bare) (takeStatement (first :: rest)) :=
    takeStatement_bare_cons shorter
  rw [takeBlock_cons]
  rw [List.map_cons] at statement ⊢
  rw [takeBlock_cons]
  simp only [statement, isKeyword_bare, Prod.map, List.length_map, List.length_cons]
  split
  · rfl
  · split
    · rfl
    · split
      · rename_i fewer
        rw [(shorter _ (Nat.le_of_lt_succ fewer)).block, bareBody_append]
        rfl
      · rw [(shorter _ (Nat.le_refl _)).block, bareBody_append]
        rfl

/-- The body of an entry and the entries after it. -/
theorem takeEntry_bare {others : List Token} (le : others.length ≤ rest.length) :
    takeStatement (others.map bare) =
        Prod.map bareBody (List.map bare) (takeStatement others) ∧
      takeCaseItems ((takeStatement others).2.map bare) =
        Prod.map bareItems (List.map bare) (takeCaseItems (takeStatement others).2) :=
  ⟨(shorter others le).statement,
    (shorter _ (Nat.le_trans (readStatement others).length_le le)).items⟩

/-- **The entries of a case statement do not depend on the places of tokens** but for the lines of
statements, when shorter lists do not. -/
theorem takeCaseItems_bare_cons :
    takeCaseItems ((first :: rest).map bare) =
      Prod.map bareItems (List.map bare) (takeCaseItems (first :: rest)) := by
  have labels := takeUntil_bare endsLabels 0 (first :: rest)
  have inside := length_takeLabels_le_cons first rest
  rw [takeCaseItems_cons]
  rw [List.map_cons] at labels ⊢
  rw [takeCaseItems_cons, labels]
  simp only [isKeyword_bare]
  split
  · rfl
  split
  · rfl
  split
  · obtain ⟨body, following⟩ :=
      takeEntry_bare shorter (length_skipIf_le (Token.isOperator ":") rest)
    simp only [skipIf_bare, body, Prod.map, following]
    rfl
  cases read : takeUntil endsLabels 0 (first :: rest) with
  | mk words after =>
      rw [read] at inside
      cases after with
      | nil => rfl
      | cons colon after =>
          have le : after.length ≤ rest.length := Nat.le_of_succ_le_succ inside
          obtain ⟨body, following⟩ := takeEntry_bare shorter le
          simp only [Prod.map, List.map_cons, isOperator_bare, body, following, id,
            List.length_cons, List.length_map]
          split
          · rfl
          · split
            · rename_i fewer
              exact (shorter (colon :: after) (Nat.le_of_lt_succ fewer)).items
            · exact (shorter rest (Nat.le_refl _)).items

end Step

/-- **Reading procedural code does not look at places.** -/
theorem readsBare (tokens : List Token) : ReadsBare tokens := by
  induction size : tokens.length using Nat.strong_induction_on generalizing tokens with
  | _ bound ih =>
      cases tokens with
      | nil => exact ReadsBare.nil
      | cons first rest =>
          have shorter (others : List Token) (le : others.length ≤ rest.length) :
              ReadsBare others :=
            ih others.length (size ▸ Nat.lt_succ_of_le le) others rfl
          exact ⟨takeStatement_bare_cons shorter, takeBlock_bare_cons shorter,
            takeCaseItems_bare_cons shorter⟩

end MiniVerilog.Source
