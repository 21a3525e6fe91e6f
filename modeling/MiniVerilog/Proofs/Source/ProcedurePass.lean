import MiniVerilog.Proofs.Source.Pass
import MiniVerilog.Proofs.Source.Reading

/-! # Passes over procedural code

The readers of statements, blocks and case statements call each other. Their passes are told by
rules over cursors, one for each thing that the first token of a statement opens, for each round of
a block and for each round of a case statement. Every pass goes forward
(`MiniVerilog.Source.StatementPass.forward`) and reads what the readers read
(`MiniVerilog.Source.StatementPass.reads`), and there is a pass from every cursor
(`MiniVerilog.Source.hasPasses`).
-/

namespace MiniVerilog.Source

open List (suffix_refl suffix_cons drop_suffix)

variable {tokens : List Token}

/-- What the first token of a statement opens. A loop other than `forever` has a header. -/
inductive Opening where
  | block | branch | select | assignment | loop (header : Bool) | nothing | empty | delay | skipped
  deriving DecidableEq, Repr

/-- What a token opens. -/
def opening (first : Token) : Opening :=
  match first.kind with
  | .keyword .begin_ => .block
  | .keyword .if_ => .branch
  | .keyword .case_ => .select
  | .identifier => if isCaseVariant first then .select else .assignment
  | .keyword .end_ | .keyword .endcase | .keyword .endmodule | .keyword .else_ => .nothing
  | .keyword .for_ | .keyword .while_ | .keyword .repeat_ => .loop true
  | .keyword .forever => .loop false
  | _ =>
    if first.isOperator ";" then .empty
    else if first.isOperator "#" then .delay
    else .skipped

/-- The tokens from the body of a loop on. -/
def loopBody (header : Bool) (rest : List Token) : List Token :=
  if header then (takeParenthesised rest).2 else rest

theorem loopBody_suffix (header : Bool) (rest : List Token) : loopBody header rest <:+ rest := by
  cases header with
  | false => exact suffix_refl rest
  | true => exact takeParenthesised_suffix rest

/-- **What a statement reads is told by its first token**: the reader of statements as one match on
what the token opens. -/
theorem takeStatement_opening (first : Token) (rest : List Token) :
    takeStatement (first :: rest) =
      match opening first with
      | .block => takeBlock (skipBlockLabel rest)
      | .branch => takeBranch rest
      | .select => takeSelect rest
      | .assignment => takeAssignment first rest
      | .loop header => takeLoop (loopBody header rest)
      | .nothing => ([], first :: rest)
      | .empty => ([], rest)
      | .delay => takeStatement (skipIf isDelay rest)
      | .skipped => ([], skipStatement 0 (first :: rest)) := by
  rw [takeStatement_cons, opening]
  cases first.kind with
  | keyword word =>
      cases word with
      | begin_ | if_ | case_ | end_ | endcase | endmodule | else_ | for_ | while_ | repeat_
      | forever => rfl
      | _ =>
          dsimp only [takeOther]
          split
          · rfl
          · split <;> rfl
  | identifier =>
      dsimp only
      split <;> rfl
  | _ =>
      dsimp only [takeOther]
      split
      · rfl
      · split <;> rfl

/-- Where the right side of an assignment stops that starts at a cursor. A delay takes two tokens,
even if only one is left. -/
def rightSideEnd (tokens : List Token) (cursor : Nat) : Nat :=
  let start := if headIs (Token.isOperator "#") (tokens.drop cursor) then cursor + 2 else cursor
  behind tokens start
    (skipIf (Token.isOperator ";") (takeUntil endsAssignment 0 (tokens.drop start)).2)

/-- Where an assignment stops whose target stands before a cursor. -/
def assignmentEnd (tokens : List Token) (cursor : Nat) : Nat :=
  let sign := behind tokens cursor (skipRanges (tokens.drop cursor))
  if headIs (Token.isOperator "=") (tokens.drop sign) ||
      headIs (Token.isOperator "<=") (tokens.drop sign) then
    rightSideEnd tokens (sign + 1)
  else behind tokens sign (skipStatement 0 (tokens.drop sign))

/-- The right side of an assignment moves the cursor on, and a delay at the end moves it one step
beyond. -/
theorem moves_rightSideEnd (tokens : List Token) (cursor : Nat) :
    Moves tokens cursor (rightSideEnd tokens cursor) := by
  unfold rightSideEnd
  dsimp only
  split
  · rename_i delay
    obtain ⟨first, rest, here⟩ := exists_cons_of_headIs delay
    have inside := lt_length_of_drop here
    -- The second token of the delay may be missing, so the cursor may pass the end by one.
    have delayed : Moves tokens cursor (cursor + 2) :=
      ⟨Nat.le_add_right _ _, Nat.le_trans (Nat.succ_le_succ inside) (Nat.le_max_right _ _)⟩
    exact delayed.trans (.behind _ _ _)
  · exact .behind _ _ _

/-- The cursor stops behind what the right side of an assignment takes. -/
theorem drop_rightSideEnd (tokens : List Token) (cursor : Nat) :
    tokens.drop (rightSideEnd tokens cursor) = (takeRightSide (tokens.drop cursor)).2 := by
  have suffix (start : Nat) : skipIf (Token.isOperator ";")
      (takeUntil endsAssignment 0 (tokens.drop start)).2 <:+ tokens.drop start :=
    (skipIf_suffix _ _).trans (takeUntil_suffix _ _ _)
  unfold rightSideEnd takeRightSide
  dsimp only
  rw [drop_behind (suffix _)]
  split
  · rw [List.drop_drop]
  · rfl

/-- An assignment moves the cursor on. -/
theorem moves_assignmentEnd (tokens : List Token) (cursor : Nat) :
    Moves tokens cursor (assignmentEnd tokens cursor) := by
  have ranges := Moves.behind tokens cursor (skipRanges (tokens.drop cursor))
  unfold assignmentEnd
  dsimp only
  split
  · rename_i sign
    have present : ∃ first rest,
        tokens.drop (behind tokens cursor (skipRanges (tokens.drop cursor))) = first :: rest := by
      rcases Bool.or_eq_true_iff.mp sign with blocking | nonblocking
      · exact exists_cons_of_headIs blocking
      · exact exists_cons_of_headIs nonblocking
    obtain ⟨first, rest, here⟩ := present
    exact (ranges.trans (.succ here)).trans (moves_rightSideEnd _ _)
  · exact ranges.trans (.behind _ _ _)

/-- The cursor stops behind what an assignment takes. -/
theorem drop_assignmentEnd (target : Token) (tokens : List Token) (cursor : Nat) :
    tokens.drop (assignmentEnd tokens cursor) =
      (takeAssignment target (tokens.drop cursor)).2 := by
  have sign := drop_behind (skipRanges_suffix (tokens.drop cursor))
  have behindSign : tokens.drop (behind tokens cursor (skipRanges (tokens.drop cursor)) + 1) =
      (skipRanges (tokens.drop cursor)).drop 1 := by
    rw [← List.drop_drop, sign]
  unfold assignmentEnd takeAssignment
  dsimp only
  rw [sign]
  by_cases blocking : headIs (Token.isOperator "=") (skipRanges (tokens.drop cursor)) = true
  · rw [if_pos blocking, if_pos (Bool.or_eq_true_iff.mpr (.inl blocking)), drop_rightSideEnd,
      behindSign]
  · rw [if_neg blocking]
    by_cases nonblocking : headIs (Token.isOperator "<=") (skipRanges (tokens.drop cursor)) = true
    · rw [if_pos nonblocking, if_pos (Bool.or_eq_true_iff.mpr (.inr nonblocking)),
        drop_rightSideEnd, behindSign]
    · have noSign := not_or.mpr ⟨blocking, nonblocking⟩
      rw [if_neg nonblocking, if_neg (mt Bool.or_eq_true_iff.mp noSign)]
      exact drop_behind (sign.symm ▸ skipStatement_suffix 0 _)

mutual

/-- A pass of the reader of statements: from a cursor it reads statements over a trail to a stop. -/
inductive StatementPass (tokens : List Token) :
    Nat → List Procedure → List Moment → Nat → Prop
  | absent {start : Nat} (ended : tokens.drop start = []) : StatementPass tokens start [] [] start
  | block {start stop : Nat} {first : Token} {rest : List Token} {body : List Procedure}
    {trail : List Moment} (here : tokens.drop start = first :: rest)
    (opens : opening first = .block)
    (inside : BlockPass tokens start (behind tokens (start + 1) (skipBlockLabel rest)) body trail
      stop) :
    StatementPass tokens start body trail stop
  | branch {start next stop : Nat} {first : Token} {rest : List Token}
    {thenBody : List Procedure} {trail : List Moment} (here : tokens.drop start = first :: rest)
    (opens : opening first = .branch)
    (condition : next = behind tokens (start + 1) (takeParenthesised rest).2)
    (thenPart : StatementPass tokens next thenBody trail stop)
    (noElse : headIs (Token.isKeyword .else_) (tokens.drop stop) = false) :
    StatementPass tokens start
      [.branch (unwrap (joined (takeParenthesised rest).1)) thenBody []]
      (.call .branch start next :: trail) stop
  | branchElse {start next middle stop : Nat} {first : Token} {rest : List Token}
    {thenBody elseBody : List Procedure} {trail others : List Moment}
    (here : tokens.drop start = first :: rest) (opens : opening first = .branch)
    (condition : next = behind tokens (start + 1) (takeParenthesised rest).2)
    (thenPart : StatementPass tokens next thenBody trail middle)
    (hasElse : headIs (Token.isKeyword .else_) (tokens.drop middle) = true)
    (elsePart : StatementPass tokens (middle + 1) elseBody others stop) :
    StatementPass tokens start
      [.branch (unwrap (joined (takeParenthesised rest).1)) thenBody elseBody]
      (.call .branch start next :: trail ++ .call .branch start (middle + 1) :: others) stop
  | select {start stop : Nat} {first : Token} {rest : List Token} {items : List CaseItem}
    {trail : List Moment} (here : tokens.drop start = first :: rest)
    (opens : opening first = .select)
    (inside : CasePass tokens start (behind tokens (start + 1) (takeParenthesised rest).2) items
      trail stop) :
    StatementPass tokens start
      [.select (unwrap (joined (takeParenthesised rest).1)) items] trail stop
  | assignment {start : Nat} {first : Token} {rest : List Token}
    (here : tokens.drop start = first :: rest) (opens : opening first = .assignment) :
    StatementPass tokens start (takeAssignment first rest).1 [] (assignmentEnd tokens (start + 1))
  | loop {start next stop : Nat} {header : Bool} {first : Token} {rest : List Token}
    {body : List Procedure} {trail : List Moment} (here : tokens.drop start = first :: rest)
    (opens : opening first = .loop header)
    (enters : next = behind tokens (start + 1) (loopBody header rest))
    (inside : StatementPass tokens next body trail stop) :
    StatementPass tokens start [.loop body] (.call .loop start next :: trail) stop
  | nothing {start : Nat} {first : Token} {rest : List Token}
    (here : tokens.drop start = first :: rest) (opens : opening first = .nothing) :
    StatementPass tokens start [] [] start
  | empty {start : Nat} {first : Token} {rest : List Token}
    (here : tokens.drop start = first :: rest) (opens : opening first = .empty) :
    StatementPass tokens start [] [] (start + 1)
  | delay {start next stop : Nat} {first : Token} {rest : List Token} {body : List Procedure}
    {trail : List Moment} (here : tokens.drop start = first :: rest)
    (opens : opening first = .delay)
    (enters : next = behind tokens (start + 1) (skipIf isDelay rest))
    (delayed : StatementPass tokens next body trail stop) :
    StatementPass tokens start body (.call .delay start next :: trail) stop
  | skipped {start : Nat} {first : Token} {rest : List Token}
    (here : tokens.drop start = first :: rest) (opens : opening first = .skipped) :
    StatementPass tokens start [] [] (behind tokens start (skipStatement 0 (first :: rest)))

/-- A pass over the rounds of a block whose statement started where the block was entered. A round
in which the reader of statements stands still skips a token. -/
inductive BlockPass (tokens : List Token) :
    (entered : Nat) → Nat → List Procedure → List Moment → Nat → Prop
  | leaves {entered start : Nat}
    (ended : tokens.drop start = [] ∨
      headIs (Token.isKeyword .endmodule) (tokens.drop start) = true) :
    BlockPass tokens entered start [] [.round .block start start true] start
  | closes {entered start : Nat}
    (closed : headIs (Token.isKeyword .end_) (tokens.drop start) = true) :
    BlockPass tokens entered start [] [.round .block start (start + 1) true] (start + 1)
  | next {entered start middle next stop : Nat} {first : Token} {rest : List Token}
    {body others : List Procedure} {trail after : List Moment}
    (here : tokens.drop start = first :: rest) (within : first.isKeyword .endmodule = false)
    (open_ : first.isKeyword .end_ = false)
    (statement : StatementPass tokens start body trail middle)
    (moves : next = if middle = start then start + 1 else middle)
    (following : BlockPass tokens entered next others after stop) :
    BlockPass tokens entered start (body ++ others)
      (.call .block entered start :: trail ++ .round .block start next false :: after) stop

/-- A pass over the rounds of a case statement that started where it was entered. A round without
labels and without a colon skips a token. -/
inductive CasePass (tokens : List Token) :
    (entered : Nat) → Nat → List CaseItem → List Moment → Nat → Prop
  | leaves {entered start : Nat}
    (ended : tokens.drop start = [] ∨
      headIs (Token.isKeyword .endmodule) (tokens.drop start) = true) :
    CasePass tokens entered start [] [.round .caseItems start start true] start
  | closes {entered start : Nat}
    (closed : headIs (Token.isKeyword .endcase) (tokens.drop start) = true) :
    CasePass tokens entered start [] [.round .caseItems start (start + 1) true] (start + 1)
  | otherwise {entered start next middle stop : Nat} {first : Token} {rest : List Token}
    {body : List Procedure} {items : List CaseItem} {trail after : List Moment}
    (here : tokens.drop start = first :: rest) (default : first.isKeyword .default_ = true)
    (enters : next = behind tokens (start + 1) (skipIf (Token.isOperator ":") rest))
    (statement : StatementPass tokens next body trail middle)
    (following : CasePass tokens entered middle items after stop) :
    CasePass tokens entered start (.otherwise body :: items)
      (.call .caseItems entered next :: trail ++
        .round .caseItems start middle false :: after) stop
  | arm {entered start colon middle stop : Nat} {first : Token} {rest : List Token}
    {body : List Procedure} {items : List CaseItem} {trail after : List Moment}
    (here : tokens.drop start = first :: rest) (within : first.isKeyword .endmodule = false)
    (open_ : first.isKeyword .endcase = false) (noDefault : first.isKeyword .default_ = false)
    (reads : colon = behind tokens start (takeUntil endsLabels 0 (first :: rest)).2)
    (hasColon : headIs (Token.isOperator ":") (tokens.drop colon) = true)
    (statement : StatementPass tokens (colon + 1) body trail middle)
    (following : CasePass tokens entered middle items after stop) :
    CasePass tokens entered start
      (.arm (labels (takeUntil endsLabels 0 (first :: rest)).1) body :: items)
      (.call .caseItems entered (colon + 1) :: trail ++
        .round .caseItems start middle false :: after) stop
  | skips {entered start end_ next stop : Nat} {first : Token} {rest : List Token}
    {items : List CaseItem} {after : List Moment}
    (here : tokens.drop start = first :: rest) (within : first.isKeyword .endmodule = false)
    (open_ : first.isKeyword .endcase = false) (noDefault : first.isKeyword .default_ = false)
    (reads : end_ = behind tokens start (takeUntil endsLabels 0 (first :: rest)).2)
    (noColon : headIs (Token.isOperator ":") (tokens.drop end_) = false)
    (moves : next =
      if (takeUntil endsLabels 0 (first :: rest)).1 = [] then end_ + 1 else end_)
    (following : CasePass tokens entered next items after stop) :
    CasePass tokens entered start items
      (.round .caseItems start next false :: after) stop

end

/-- A round of a block that reads a statement takes a token. -/
theorem moves_blockRound {start middle next : Nat} {first : Token} {rest : List Token}
    (here : tokens.drop start = first :: rest) (statement : Moves tokens start middle)
    (moves : next = if middle = start then start + 1 else middle) :
    Moves tokens middle next ∧ start < next := by
  subst moves
  split
  · rename_i same
    exact ⟨by rw [same]; exact .succ here, Nat.lt_succ_self start⟩
  · rename_i other
    exact ⟨.refl tokens middle, Nat.lt_of_le_of_ne statement.le (Ne.symm other)⟩

/-- A round of a case statement without a colon takes a token. -/
theorem moves_skippedLabels {start end_ next : Nat} {first : Token} {rest : List Token}
    (here : tokens.drop start = first :: rest)
    (reads : end_ = behind tokens start (takeUntil endsLabels 0 (first :: rest)).2)
    (moves : next =
      if (takeUntil endsLabels 0 (first :: rest)).1 = [] then end_ + 1 else end_) :
    Moves tokens start next ∧ start < next := by
  have words := behind_takeUntil endsLabels 0 here
  subst moves
  split
  · rename_i none
    rw [reads, words, none]
    exact ⟨.succ here, Nat.lt_succ_self start⟩
  · rename_i some
    refine ⟨.of_eq_behind reads, ?_⟩
    rw [reads, words]
    exact Nat.lt_add_of_pos_right (List.length_pos_iff.mpr some)

mutual

/-- **A pass over a statement goes forward.** The three passes are defined together, so the proofs
recurse through one another on the structure of the pass. -/
theorem StatementPass.forward : ∀ {start : Nat} {body : List Procedure} {trail : List Moment}
    {stop : Nat}, StatementPass tokens start body trail stop → Forward tokens start trail stop
  | _, _, _, _, .absent _ => .refl tokens _
  | _, _, _, _, .block here _ inside => by
      have enters := takes_behind here (skipBlockLabel_suffix _)
      exact (BlockPass.forward inside enters.later).after enters.moves
  | _, _, _, _, .branch here _ condition thenPart _ => by
      have enters := Takes.of_eq_behind condition here (takeParenthesised_suffix _)
      exact ⟨enters.moves, enters.later, thenPart.forward⟩
  | _, _, _, _, .branchElse here _ condition thenPart hasElse elsePart => by
      have enters := Takes.of_eq_behind condition here (takeParenthesised_suffix _)
      have first := thenPart.forward
      have later := Nat.lt_of_lt_of_le enters.later first.moves.le
      exact .append ⟨enters.moves, enters.later, first⟩
        ⟨.succ_of_headIs hasElse, Nat.lt_succ_of_lt later, elsePart.forward⟩
  | _, _, _, _, .select here _ inside => by
      have enters := takes_behind here (takeParenthesised_suffix _)
      exact (CasePass.forward inside enters.later).after enters.moves
  | _, _, _, _, .assignment here _ => (Moves.succ here).trans (moves_assignmentEnd tokens _)
  | _, _, _, _, .loop here _ enters inside => by
      have body := Takes.of_eq_behind enters here (loopBody_suffix _ _)
      exact ⟨body.moves, body.later, inside.forward⟩
  | _, _, _, _, .nothing _ _ => .refl tokens _
  | _, _, _, _, .empty here _ => .succ here
  | _, _, _, _, .delay here _ enters delayed => by
      have statement := Takes.of_eq_behind enters here (skipIf_suffix isDelay _)
      exact ⟨statement.moves, statement.later, delayed.forward⟩
  | _, _, _, _, .skipped _ _ => .behind tokens _ _

/-- A pass over a block goes forward once the block has been entered. -/
theorem BlockPass.forward : ∀ {entered start : Nat} {body : List Procedure} {trail : List Moment}
    {stop : Nat}, BlockPass tokens entered start body trail stop → entered < start →
    Forward tokens start trail stop
  | _, _, _, _, _, .leaves _, _ => ⟨.refl tokens _, .leaving (Nat.le_refl _), .refl tokens _⟩
  | _, _, _, _, _, .closes closed, _ =>
      ⟨.succ_of_headIs closed, .leaving (Nat.le_succ _), .refl tokens _⟩
  | _, _, _, _, _, .next here _ _ statement moves following, inside => by
      have body := statement.forward
      obtain ⟨on, later⟩ := moves_blockRound here body.moves moves
      exact .append ⟨.refl tokens _, inside, body⟩
        ⟨on, .taking later, following.forward (inside.trans later)⟩

/-- A pass over a case statement goes forward once it has been entered. -/
theorem CasePass.forward : ∀ {entered start : Nat} {items : List CaseItem} {trail : List Moment}
    {stop : Nat}, CasePass tokens entered start items trail stop → entered < start →
    Forward tokens start trail stop
  | _, _, _, _, _, .leaves _, _ => ⟨.refl tokens _, .leaving (Nat.le_refl _), .refl tokens _⟩
  | _, _, _, _, _, .closes closed, _ =>
      ⟨.succ_of_headIs closed, .leaving (Nat.le_succ _), .refl tokens _⟩
  | _, _, _, _, _, .otherwise here _ enters statement following, inside => by
      have colon := Takes.of_eq_behind enters here (skipIf_suffix _ _)
      have body := statement.forward
      have later := Nat.lt_of_lt_of_le colon.later body.moves.le
      exact .append ⟨colon.moves, inside.trans colon.later, body⟩
        ⟨.refl tokens _, .taking later, following.forward (inside.trans later)⟩
  | _, _, _, _, _, .arm here _ _ _ reads hasColon statement following, inside => by
      have labels := Moves.of_eq_behind reads
      have body := statement.forward
      have called := Nat.lt_succ_of_le labels.le
      have later := Nat.lt_of_lt_of_le called body.moves.le
      exact .append ⟨labels.trans (.succ_of_headIs hasColon), inside.trans called, body⟩
        ⟨.refl tokens _, .taking later, following.forward (inside.trans later)⟩
  | _, _, _, _, _, .skips here _ _ _ reads _ moves following, inside => by
      obtain ⟨on, later⟩ := moves_skippedLabels here reads moves
      exact ⟨on, .taking later, following.forward (inside.trans later)⟩

end

/-- Behind a round of a block is what the reader of blocks goes on with. -/
theorem drop_blockRound {start middle : Nat} {first : Token} {rest : List Token}
    (here : tokens.drop start = first :: rest) (statement : Moves tokens start middle) :
    tokens.drop (if middle = start then start + 1 else middle) =
      if (tokens.drop middle).length < (first :: rest).length then tokens.drop middle
      else rest := by
  have inside := lt_length_of_drop here
  have length := congrArg List.length here
  have le := statement.le
  rw [List.length_drop] at length ⊢
  rw [← length]
  by_cases same : middle = start
  · rw [if_pos same, if_neg (by omega), drop_succ here]
  · rw [if_neg same, if_pos (by omega)]

/-- The cursor stands behind the words of the labels. -/
theorem drop_labels {start colon : Nat} {first : Token} {rest : List Token}
    (here : tokens.drop start = first :: rest)
    (reads : colon = behind tokens start (takeUntil endsLabels 0 (first :: rest)).2) :
    tokens.drop colon = (takeUntil endsLabels 0 (first :: rest)).2 := by
  rw [reads]
  refine drop_behind ?_
  rw [here]
  exact takeUntil_suffix endsLabels 0 (first :: rest)

/-- The cursor stands behind labels that are skipped, of which at least one token is taken. -/
theorem drop_skippedLabels {start end_ : Nat} {first : Token} {rest : List Token}
    (here : tokens.drop start = first :: rest)
    (reads : end_ = behind tokens start (takeUntil endsLabels 0 (first :: rest)).2) :
    tokens.drop (if (takeUntil endsLabels 0 (first :: rest)).1 = [] then end_ + 1 else end_) =
      if (takeUntil endsLabels 0 (first :: rest)).1 = [] then rest
      else (takeUntil endsLabels 0 (first :: rest)).2 := by
  split
  · rename_i none
    rw [reads, behind_takeUntil endsLabels 0 here, none]
    exact drop_succ here
  · exact drop_labels here reads

section Labels

variable {first : Token} {rest : List Token} (within : first.isKeyword .endmodule = false)
  (open_ : first.isKeyword .endcase = false) (noDefault : first.isKeyword .default_ = false)

include within open_ noDefault

/-- Labels with a colon start an alternative. -/
theorem takeCaseItems_arm
    (hasColon : headIs (Token.isOperator ":") (takeUntil endsLabels 0 (first :: rest)).2 = true) :
    takeCaseItems (first :: rest) =
      let body := takeStatement ((takeUntil endsLabels 0 (first :: rest)).2.drop 1)
      (.arm (labels (takeUntil endsLabels 0 (first :: rest)).1) body.1 :: (takeCaseItems body.2).1,
        (takeCaseItems body.2).2) := by
  rw [takeCaseItems_cons, if_neg (Bool.eq_false_iff.mp within),
    if_neg (Bool.eq_false_iff.mp open_), if_neg (Bool.eq_false_iff.mp noDefault)]
  split
  · rename_i words colon others read
    rw [read] at hasColon ⊢
    exact if_pos hasColon
  · rename_i read
    rw [read] at hasColon
    cases hasColon

/-- Labels without a colon are skipped, or one token if there are none. -/
theorem takeCaseItems_skip
    (noColon : headIs (Token.isOperator ":") (takeUntil endsLabels 0 (first :: rest)).2 = false) :
    takeCaseItems (first :: rest) =
      takeCaseItems (if (takeUntil endsLabels 0 (first :: rest)).1 = [] then rest
        else (takeUntil endsLabels 0 (first :: rest)).2) := by
  have whole := length_takeUntil endsLabels 0 (first :: rest)
  rw [takeCaseItems_cons, if_neg (Bool.eq_false_iff.mp within),
    if_neg (Bool.eq_false_iff.mp open_), if_neg (Bool.eq_false_iff.mp noDefault)]
  split
  · rename_i words colon others read
    rw [read] at noColon whole ⊢
    have noColon : ¬colon.isOperator ":" = true := Bool.eq_false_iff.mp noColon
    rw [if_neg noColon]
    by_cases none : words = []
    · subst none
      rw [if_pos rfl, if_neg (by rw [← whole]; simp)]
    · have some := List.length_pos_iff.mpr none
      rw [if_neg none, if_pos (by dsimp only at whole; omega)]
  · rename_i words read
    rw [read] at whole ⊢
    have some : words ≠ [] := by
      rintro rfl
      cases whole
    rw [if_neg some, takeCaseItems_nil]

end Labels

/-- A token is one reserved word. -/
theorem not_isKeyword {word other : Keyword} {token : Token} (is : token.isKeyword word = true)
    (distinct : word ≠ other) : ¬token.isKeyword other = true := by
  unfold Token.isKeyword at is ⊢
  rw [beq_iff_eq] at is ⊢
  rw [is]
  exact mt TokenKind.keyword.inj distinct

mutual

/-- **A pass over a statement reads what the reader of statements reads**, and stops where it
stops. -/
theorem StatementPass.reads : ∀ {start : Nat} {body : List Procedure} {trail : List Moment}
    {stop : Nat}, StatementPass tokens start body trail stop →
    takeStatement (tokens.drop start) = (body, tokens.drop stop)
  | _, _, _, _, .absent ended => by rw [ended, takeStatement_nil]
  | _, _, _, _, .block here opens inside => by
      have enters := takes_behind here (skipBlockLabel_suffix _)
      have block := inside.reads
      rw [enters.left] at block
      rw [here, takeStatement_opening, opens]
      exact block
  | _, _, _, _, .branch here opens condition thenPart noElse => by
      have enters := Takes.of_eq_behind condition here (takeParenthesised_suffix _)
      have body := thenPart.reads
      rw [enters.left] at body
      rw [here, takeStatement_opening, opens]
      dsimp only [takeBranch]
      rw [body, if_neg (Bool.eq_false_iff.mp noElse)]
  | _, _, _, _, .branchElse here opens condition thenPart hasElse elsePart => by
      have enters := Takes.of_eq_behind condition here (takeParenthesised_suffix _)
      have body := thenPart.reads
      have others := elsePart.reads
      rw [enters.left] at body
      rw [← List.drop_drop] at others
      rw [here, takeStatement_opening, opens]
      dsimp only [takeBranch]
      rw [body, if_pos hasElse, others]
  | _, _, _, _, .select here opens inside => by
      have enters := takes_behind here (takeParenthesised_suffix _)
      have items := inside.reads
      rw [enters.left] at items
      rw [here, takeStatement_opening, opens]
      dsimp only [takeSelect]
      rw [items]
  | _, _, _, _, @StatementPass.assignment _ start first rest here opens => by
      rw [here, takeStatement_opening, opens, drop_assignmentEnd first, drop_succ here]
  | _, _, _, _, .loop here opens enters inside => by
      have entry := Takes.of_eq_behind enters here (loopBody_suffix _ _)
      have body := inside.reads
      rw [entry.left] at body
      rw [here, takeStatement_opening, opens]
      dsimp only [takeLoop]
      rw [body]
  | _, _, _, _, .nothing here opens => by
      rw [here, takeStatement_opening, opens]
  | _, _, _, _, .empty here opens => by
      rw [here, takeStatement_opening, opens, drop_succ here]
  | _, _, _, _, .delay here opens enters delayed => by
      have entry := Takes.of_eq_behind enters here (skipIf_suffix isDelay _)
      have body := delayed.reads
      rw [entry.left] at body
      rw [here, takeStatement_opening, opens]
      exact body
  | _, _, _, _, .skipped here opens => by
      rw [drop_behind (by rw [here]; exact skipStatement_suffix 0 _), here, takeStatement_opening,
        opens]

/-- A pass over a block reads what the reader of blocks reads. -/
theorem BlockPass.reads : ∀ {entered start : Nat} {body : List Procedure} {trail : List Moment}
    {stop : Nat}, BlockPass tokens entered start body trail stop →
    takeBlock (tokens.drop start) = (body, tokens.drop stop)
  | _, _, _, _, _, .leaves (.inl ended) => by rw [ended, takeBlock_nil]
  | _, _, _, _, _, .leaves (.inr ended) => by
      obtain ⟨first, rest, here⟩ := exists_cons_of_headIs ended
      rw [here] at ended ⊢
      rw [takeBlock_cons]
      exact if_pos ended
  | _, _, _, _, _, .closes closed => by
      obtain ⟨first, rest, here⟩ := exists_cons_of_headIs closed
      rw [here] at closed
      rw [here, takeBlock_cons, if_neg (not_isKeyword closed (by decide)), drop_succ here]
      exact if_pos closed
  | _, _, _, _, _, .next here within open_ statement moves following => by
      have body := statement.reads
      have others := following.reads
      rw [moves, drop_blockRound here statement.forward.moves] at others
      rw [here] at body ⊢
      rw [takeBlock_cons, if_neg (Bool.eq_false_iff.mp within), if_neg (Bool.eq_false_iff.mp open_)]
      dsimp only
      rw [body, others]

/-- A pass over a case statement reads what the reader of its entries reads. -/
theorem CasePass.reads : ∀ {entered start : Nat} {items : List CaseItem} {trail : List Moment}
    {stop : Nat}, CasePass tokens entered start items trail stop →
    takeCaseItems (tokens.drop start) = (items, tokens.drop stop)
  | _, _, _, _, _, .leaves (.inl ended) => by rw [ended, takeCaseItems_nil]
  | _, _, _, _, _, .leaves (.inr ended) => by
      obtain ⟨first, rest, here⟩ := exists_cons_of_headIs ended
      rw [here] at ended ⊢
      rw [takeCaseItems_cons]
      exact if_pos ended
  | _, _, _, _, _, .closes closed => by
      obtain ⟨first, rest, here⟩ := exists_cons_of_headIs closed
      rw [here] at closed
      rw [here, takeCaseItems_cons, if_neg (not_isKeyword closed (by decide)), drop_succ here]
      exact if_pos closed
  | _, _, _, _, _, .otherwise here default enters statement following => by
      have entry := Takes.of_eq_behind enters here (skipIf_suffix _ _)
      have body := statement.reads
      have items := following.reads
      rw [entry.left] at body
      rw [here, takeCaseItems_cons, if_neg (not_isKeyword default (by decide)),
        if_neg (not_isKeyword default (by decide)), if_pos default]
      dsimp only
      rw [body, items]
  | _, _, _, _, _, .arm here within open_ noDefault reads hasColon statement following => by
      have body := statement.reads
      have items := following.reads
      rw [drop_labels here reads] at hasColon
      rw [← List.drop_drop, drop_labels here reads] at body
      rw [here, takeCaseItems_arm within open_ noDefault hasColon]
      dsimp only
      rw [body, items]
  | _, _, _, _, _, .skips here within open_ noDefault reads noColon moves following => by
      have items := following.reads
      rw [moves, drop_skippedLabels here reads] at items
      rw [drop_labels here reads] at noColon
      rw [here, takeCaseItems_skip within open_ noDefault noColon]
      exact items

end

/-- There are passes of the three readers of procedural code from a cursor. -/
structure HasPasses (tokens : List Token) (cursor : Nat) : Prop where
  statement : ∃ body trail stop, StatementPass tokens cursor body trail stop
  block : ∀ entered, ∃ body trail stop, BlockPass tokens entered cursor body trail stop
  items : ∀ entered, ∃ items trail stop, CasePass tokens entered cursor items trail stop

section Step

variable {cursor : Nat} {first : Token} {rest : List Token}
  (here : tokens.drop cursor = first :: rest)
  (later : ∀ next, cursor < next → HasPasses tokens next)

include here later

/-- There is a pass over a branch if there are passes from every later cursor. -/
theorem exists_branchPass (opens : opening first = .branch) :
    ∃ body trail stop, StatementPass tokens cursor body trail stop := by
  have enters := takes_behind here (takeParenthesised_suffix rest)
  obtain ⟨thenBody, thenTrail, middle, thenPart⟩ := (later _ enters.later).statement
  cases hasElse : headIs (Token.isKeyword .else_) (tokens.drop middle) with
  | false => exact ⟨_, _, _, .branch here opens rfl thenPart hasElse⟩
  | true =>
      have after := Nat.lt_succ_of_lt (Nat.lt_of_lt_of_le enters.later thenPart.forward.moves.le)
      obtain ⟨elseBody, elseTrail, stop, elsePart⟩ := (later (middle + 1) after).statement
      exact ⟨_, _, _, .branchElse here opens rfl thenPart hasElse elsePart⟩

/-- There is a pass over a statement if there are passes from every later cursor. -/
theorem exists_statementPass :
    ∃ body trail stop, StatementPass tokens cursor body trail stop := by
  cases opens : opening first with
  | block =>
      have enters := takes_behind here (skipBlockLabel_suffix rest)
      obtain ⟨body, trail, stop, pass⟩ := (later _ enters.later).block cursor
      exact ⟨_, _, _, .block here opens pass⟩
  | branch => exact exists_branchPass here later opens
  | select =>
      have enters := takes_behind here (takeParenthesised_suffix rest)
      obtain ⟨items, trail, stop, pass⟩ := (later _ enters.later).items cursor
      exact ⟨_, _, _, .select here opens pass⟩
  | assignment => exact ⟨_, _, _, .assignment here opens⟩
  | loop header =>
      have enters := takes_behind here (loopBody_suffix header rest)
      obtain ⟨body, trail, stop, pass⟩ := (later _ enters.later).statement
      exact ⟨_, _, _, .loop here opens rfl pass⟩
  | nothing => exact ⟨_, _, _, .nothing here opens⟩
  | empty => exact ⟨_, _, _, .empty here opens⟩
  | delay =>
      have enters := takes_behind here (skipIf_suffix isDelay rest)
      obtain ⟨body, trail, stop, pass⟩ := (later _ enters.later).statement
      exact ⟨_, _, _, .delay here opens rfl pass⟩
  | skipped => exact ⟨_, _, _, .skipped here opens⟩

/-- There is a pass over a block if there are passes from every later cursor. -/
theorem exists_blockPass (entered : Nat) :
    ∃ body trail stop, BlockPass tokens entered cursor body trail stop := by
  cases within : first.isKeyword .endmodule with
  | true => exact ⟨_, _, _, .leaves (.inr (by rw [here]; exact within))⟩
  | false =>
      cases open_ : first.isKeyword .end_ with
      | true => exact ⟨_, _, _, .closes (by rw [here]; exact open_)⟩
      | false =>
          obtain ⟨body, trail, middle, statement⟩ := exists_statementPass here later
          have round := moves_blockRound here statement.forward.moves rfl
          obtain ⟨others, after, stop, following⟩ := (later _ round.2).block entered
          exact ⟨_, _, _, .next here within open_ statement rfl following⟩

/-- There is a pass over a default if there are passes from every later cursor. -/
theorem exists_otherwisePass (default : first.isKeyword .default_ = true) (entered : Nat) :
    ∃ items trail stop, CasePass tokens entered cursor items trail stop := by
  have enters := takes_behind here (skipIf_suffix (Token.isOperator ":") rest)
  obtain ⟨body, trail, middle, statement⟩ := (later _ enters.later).statement
  have on := Nat.lt_of_lt_of_le enters.later statement.forward.moves.le
  obtain ⟨items, after, stop, following⟩ := (later middle on).items entered
  exact ⟨_, _, _, .otherwise here default rfl statement following⟩

/-- A round with labels ends behind a statement if a colon follows them, and in front of the next
token otherwise. -/
theorem exists_labelsPass (within : first.isKeyword .endmodule = false)
    (open_ : first.isKeyword .endcase = false) (noDefault : first.isKeyword .default_ = false)
    (entered : Nat) : ∃ items trail stop, CasePass tokens entered cursor items trail stop := by
  obtain ⟨colon, reads⟩ : ∃ colon,
    colon = behind tokens cursor (takeUntil endsLabels 0 (first :: rest)).2 := ⟨_, rfl⟩
  cases hasColon : headIs (Token.isOperator ":") (tokens.drop colon) with
  | true =>
      have called := Nat.lt_succ_of_le (Moves.of_eq_behind reads).le
      obtain ⟨body, trail, middle, statement⟩ := (later (colon + 1) called).statement
      have on := Nat.lt_of_lt_of_le called statement.forward.moves.le
      obtain ⟨items, after, stop, following⟩ := (later middle on).items entered
      exact ⟨_, _, _, .arm here within open_ noDefault reads hasColon statement following⟩
  | false =>
      have round := moves_skippedLabels here reads rfl
      obtain ⟨items, after, stop, following⟩ := (later _ round.2).items entered
      exact ⟨_, _, _, .skips here within open_ noDefault reads hasColon rfl following⟩

/-- There is a pass over a case statement if there are passes from every later cursor. -/
theorem exists_casePass (entered : Nat) :
    ∃ items trail stop, CasePass tokens entered cursor items trail stop := by
  cases within : first.isKeyword .endmodule with
  | true => exact ⟨_, _, _, .leaves (.inr (by rw [here]; exact within))⟩
  | false =>
      cases open_ : first.isKeyword .endcase with
      | true => exact ⟨_, _, _, .closes (by rw [here]; exact open_)⟩
      | false =>
          cases default : first.isKeyword .default_ with
          | true => exact exists_otherwisePass here later default entered
          | false => exact exists_labelsPass here later within open_ default entered

end Step

/-- **There is a pass from every cursor**, because the calls and the rounds behind it start further
on. -/
theorem hasPasses (tokens : List Token) (cursor : Nat) : HasPasses tokens cursor := by
  induction left : tokens.length - cursor using Nat.strong_induction_on generalizing cursor with
  | _ left ih =>
      cases here : tokens.drop cursor with
      | nil =>
          exact ⟨⟨_, _, _, .absent here⟩, fun entered => ⟨_, _, _, .leaves (.inl here)⟩,
            fun entered => ⟨_, _, _, .leaves (.inl here)⟩⟩
      | cons first rest =>
          have inside := lt_length_of_drop here
          have later (next : Nat) (after : cursor < next) : HasPasses tokens next :=
            ih _ (by omega) next rfl
          exact ⟨exists_statementPass here later, exists_blockPass here later,
            exists_casePass here later⟩

end MiniVerilog.Source
