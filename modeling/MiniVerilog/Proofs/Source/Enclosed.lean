import MiniVerilog.Proofs.Source.Reading
import MiniVerilog.Proofs.Source.Suffix

/-! # Readers stop at the end of a module

Tokens up to an `endmodule` are enclosed if nothing among them reads over it. A reader of
enclosed tokens then gives the same value whatever comes after them, and leaves tokens that
are enclosed again (`MiniVerilog.Source.Confined`). This module shows it for the readers of
procedural code (`MiniVerilog.Source.readsConfined`).
-/

namespace MiniVerilog.Source

open List (IsSuffix suffix_refl suffix_cons)

/-- The token is an `endmodule`. -/
def IsEnd (token : Token) : Prop :=
  token.isKeyword .endmodule = true ∧ token.text = "endmodule"

/-- Tokens up to an `endmodule` over which none of them is read: every function and every
task has its own end before it, and no delay mark stands directly before it. -/
structure Enclosed (tokens : List Token) : Prop where
  ended : ∃ last ∈ tokens.getLast?, IsEnd last
  delays : ∀ part, part <:+ tokens → headIs (Token.isOperator "#") part = true →
    part.length ≠ 2
  functions : ∀ part, part <:+ tokens → headIs (Token.isKeyword .function) part = true →
    part.tail.any (Token.isKeyword .endfunction) = true
  tasks : ∀ part, part <:+ tokens → headIs (Token.isKeyword .task) part = true →
    part.tail.any (Token.isKeyword .endtask) = true

instance (token : Token) : Decidable (IsEnd token) :=
  inferInstanceAs (Decidable (_ ∧ _))

/-- What is asked of every suffix can be asked of the list of tails, so that it is decidable. -/
theorem enclosed_iff (tokens : List Token) :
    Enclosed tokens ↔ (∃ last ∈ tokens.getLast?, IsEnd last) ∧
      ∀ part ∈ tokens.tails,
        (headIs (Token.isOperator "#") part = true → part.length ≠ 2) ∧
        (headIs (Token.isKeyword .function) part = true →
          part.tail.any (Token.isKeyword .endfunction) = true) ∧
        (headIs (Token.isKeyword .task) part = true →
          part.tail.any (Token.isKeyword .endtask) = true) := by
  simp only [List.mem_tails]
  constructor
  · rintro ⟨ended, delays, functions, tasks⟩
    exact ⟨ended, fun part inside => ⟨delays part inside, functions part inside, tasks part inside⟩⟩
  · rintro ⟨ended, closed⟩
    exact ⟨ended, fun part inside => (closed part inside).1,
      fun part inside => (closed part inside).2.1, fun part inside => (closed part inside).2.2⟩

instance (tokens : List Token) : Decidable (Enclosed tokens) :=
  decidable_of_iff _ (enclosed_iff tokens).symm

namespace Enclosed

variable {tokens rest after : List Token} {first : Token}

theorem ne_nil (enclosed : Enclosed tokens) : tokens ≠ [] := by
  rintro rfl
  obtain ⟨last, isLast, -⟩ := enclosed.ended
  cases isLast

/-- What is left of enclosed tokens is enclosed as well, as long as the end is left. -/
theorem suffix (enclosed : Enclosed tokens) (suffix : rest <:+ tokens) (nonempty : rest ≠ []) :
    Enclosed rest where
  ended := by
    obtain ⟨last, isLast, isEnd⟩ := enclosed.ended
    obtain ⟨before, rfl⟩ := suffix
    rw [List.getLast?_append_of_ne_nil before nonempty] at isLast
    exact ⟨last, isLast, isEnd⟩
  delays part inside := enclosed.delays part (inside.trans suffix)
  functions part inside := enclosed.functions part (inside.trans suffix)
  tasks part inside := enclosed.tasks part (inside.trans suffix)

theorem isEnd (enclosed : Enclosed [first]) : IsEnd first := by
  obtain ⟨last, isLast, isEnd⟩ := enclosed.ended
  cases isLast
  exact isEnd

/-- More tokens follow one that is no `endmodule`. -/
theorem tail (enclosed : Enclosed (first :: rest)) (other : ¬ IsEnd first) : Enclosed rest := by
  refine enclosed.suffix (suffix_cons first rest) ?_
  rintro rfl
  exact other enclosed.isEnd

/-- Enclosed tokens are not empty, so what follows them does not change the first one. -/
theorem headIs_append (enclosed : Enclosed tokens) (property : Token → Bool) :
    headIs property (tokens ++ after) = headIs property tokens := by
  cases tokens with
  | nil => exact (enclosed.ne_nil rfl).elim
  | cons first rest => rfl

/-- Enclosed tokens are not empty, so the first one is dropped from them and not from what
follows. -/
theorem drop_one_append (enclosed : Enclosed tokens) :
    (tokens ++ after).drop 1 = tokens.drop 1 ++ after := by
  cases tokens with
  | nil => exact (enclosed.ne_nil rfl).elim
  | cons first rest => rfl

end Enclosed

/-- A property that `endmodule` does not have. -/
class SparesEnd (property : Token → Bool) : Prop where
  spares (token : Token) : IsEnd token → property token = false

theorem IsEnd.kind_eq {token : Token} (isEnd : IsEnd token) : token.kind = .keyword .endmodule :=
  beq_iff_eq.mp isEnd.1

instance (text : String) : SparesEnd (Token.isOperator text) where
  spares token isEnd := by
    rw [Token.isOperator, isEnd.kind_eq]
    rfl

instance : SparesEnd Token.isIdentifier where
  spares token isEnd := by
    rw [Token.isIdentifier, isEnd.kind_eq]
    rfl

instance : SparesEnd isDelay where
  spares token isEnd := by
    rw [isDelay, Token.isIdentifier, isEnd.kind_eq]
    rfl

instance : SparesEnd (Token.isKeyword .else_) where
  spares token isEnd := by
    rw [Token.isKeyword, isEnd.kind_eq]
    rfl

/-- A token with a property that `endmodule` does not have is no end of a module. -/
theorem SparesEnd.not_isEnd {property : Token → Bool} [SparesEnd property] {token : Token}
    (holds : property token = true) : ¬ IsEnd token := by
  intro isEnd
  have spared : property token = false := SparesEnd.spares token isEnd
  rw [spared] at holds
  cases holds

/-- After a token that is no end of a module the rest is enclosed as well. -/
theorem Enclosed.drop_one {property : Token → Bool} [SparesEnd property] {tokens : List Token}
    (enclosed : Enclosed tokens) (opens : headIs property tokens = true) :
    Enclosed (tokens.drop 1) := by
  cases tokens with
  | nil => exact (enclosed.ne_nil rfl).elim
  | cons first rest =>
      have holds : property first = true := opens
      exact enclosed.tail (SparesEnd.not_isEnd holds)

/-- What is read from the tokens is the same whatever comes after them, and the rest is
enclosed again. -/
structure Confined {α : Type} (read : List Token → α × List Token) (tokens : List Token) :
    Prop where
  rest : Enclosed (read tokens).2
  append : ∀ after, read (tokens ++ after) = ((read tokens).1, (read tokens).2 ++ after)

/-- What is skipped is the same whatever comes after the tokens, and the rest is enclosed
again. -/
structure ConfinedSkip (skip : List Token → List Token) (tokens : List Token) : Prop where
  rest : Enclosed (skip tokens)
  append : ∀ after, skip (tokens ++ after) = skip tokens ++ after

section Cursor

variable {α : Type} {tokens rest : List Token}

/-- A reader is confined if it gives one value and one enclosed rest, whatever comes after the
tokens. -/
theorem Confined.intro {read : List Token → α × List Token} {value : α} (enclosed : Enclosed rest)
    (same : ∀ after, read (tokens ++ after) = (value, rest ++ after)) : Confined read tokens := by
  have here := same []
  rw [List.append_nil, List.append_nil] at here
  constructor
  · rw [here]
    exact enclosed
  · rw [here]
    exact same

/-- Skipping is confined if it leaves one enclosed rest, whatever comes after the tokens. -/
theorem ConfinedSkip.intro {skip : List Token → List Token} (enclosed : Enclosed rest)
    (same : ∀ after, skip (tokens ++ after) = rest ++ after) : ConfinedSkip skip tokens := by
  have here := same []
  rw [List.append_nil, List.append_nil] at here
  constructor
  · rw [here]
    exact enclosed
  · rw [here]
    exact same

/-- A reader that goes on with another one after the first token. -/
theorem Confined.cons {read inner : List Token → α × List Token} {first : Token}
    (confined : Confined inner rest) (opens : ∀ tokens, read (first :: tokens) = inner tokens) :
    Confined read (first :: rest) := by
  apply Confined.intro confined.rest
  intro after
  rw [List.cons_append, opens, confined.append]

/-- A confined reader after a confined skip is confined. -/
theorem Confined.after_skip {skip : List Token → List Token} {read : List Token → α × List Token}
    (skipped : ConfinedSkip skip tokens) (confined : Confined read (skip tokens)) :
    Confined (fun tokens => read (skip tokens)) tokens := by
  apply Confined.intro confined.rest
  intro after
  rw [skipped.append, confined.append]

/-- Two confined readers one after the other are confined. -/
theorem Confined.after_read {β : Type} {head : List Token → β × List Token}
    {read : List Token → α × List Token} (first : Confined head tokens)
    (confined : Confined read (head tokens).2) :
    Confined (fun tokens => read (head tokens).2) tokens := by
  apply Confined.intro confined.rest
  intro after
  rw [first.append, confined.append]

theorem Confined.nothing (value : α) (enclosed : Enclosed tokens) :
    Confined (fun tokens => (value, tokens)) tokens :=
  ⟨enclosed, fun _ => rfl⟩

theorem ConfinedSkip.reads {skip : List Token → List Token} (skipped : ConfinedSkip skip tokens)
    (value : α) : Confined (fun tokens => (value, skip tokens)) tokens :=
  ⟨skipped.rest, fun after => congrArg (value, ·) (skipped.append after)⟩

/-- A confined reader whose value is changed is confined. -/
theorem Confined.map {β : Type} {read : List Token → α × List Token}
    (confined : Confined read tokens) (change : α → β) :
    Confined (fun tokens => (change (read tokens).1, (read tokens).2)) tokens := by
  constructor
  · exact confined.rest
  · intro after
    dsimp only
    rw [confined.append]

/-- A confined skip after a confined reader leaves it confined. -/
theorem Confined.before_skip {read : List Token → α × List Token} {skip : List Token → List Token}
    (confined : Confined read tokens) (skipped : ConfinedSkip skip (read tokens).2) :
    Confined (fun tokens => ((read tokens).1, skip (read tokens).2)) tokens := by
  constructor
  · exact skipped.rest
  · intro after
    dsimp only
    rw [confined.append, skipped.append]

/-- Two readers one after the other, whose values are put together. -/
theorem Confined.pair {β γ : Type} {head : List Token → β × List Token}
    {read : List Token → γ × List Token} (combine : β → γ → α) (first : Confined head tokens)
    (second : Confined read (head tokens).2) :
    Confined (fun tokens =>
      (combine (head tokens).1 (read (head tokens).2).1, (read (head tokens).2).2)) tokens := by
  constructor
  · exact second.rest
  · intro after
    dsimp only
    rw [first.append, second.append]

/-- Skipping a token with a property that `endmodule` does not have is confined. -/
theorem skipIf_confined (property : Token → Bool) [SparesEnd property]
    (enclosed : Enclosed tokens) : ConfinedSkip (skipIf property) tokens := by
  cases tokens with
  | nil => exact (enclosed.ne_nil rfl).elim
  | cons first rest =>
      by_cases holds : property first = true
      · apply ConfinedSkip.intro (enclosed.tail (SparesEnd.not_isEnd holds))
        intro after
        rw [List.cons_append, skipIf, if_pos holds]
      · apply ConfinedSkip.intro enclosed
        intro after
        rw [List.cons_append, skipIf, if_neg holds]

/-- Skipping a statement stops before the end of the module at the latest. -/
theorem skipStatement_confined (depth : Int) (enclosed : Enclosed tokens) :
    ConfinedSkip (skipStatement depth) tokens := by
  induction tokens generalizing depth with
  | nil => exact (enclosed.ne_nil rfl).elim
  | cons first rest ih =>
      by_cases isEnd : first.isKeyword .endmodule = true
      · apply ConfinedSkip.intro enclosed
        intro after
        rw [List.cons_append, skipStatement, if_pos isEnd]
      · have others := enclosed.tail fun both => isEnd both.1
        by_cases ends : (first.isOperator ";" && depth ≤ 0) = true
        · apply ConfinedSkip.intro others
          intro after
          rw [List.cons_append, skipStatement, if_neg isEnd, if_pos ends]
        · have skipped := ih (depth + first.nesting) others
          apply ConfinedSkip.intro skipped.rest
          intro after
          rw [List.cons_append, skipStatement, if_neg isEnd, if_neg ends, skipped.append]

/-- The word that ends what is skipped must come before the end of the module. -/
theorem skipPast_confined {word : Keyword} (other : word ≠ .endmodule) (enclosed : Enclosed tokens)
    (closed : ∃ token ∈ tokens, token.isKeyword word = true) :
    ConfinedSkip (skipPast word) tokens := by
  induction tokens with
  | nil => exact (enclosed.ne_nil rfl).elim
  | cons first rest ih =>
      by_cases here : first.isKeyword word = true
      · have notEnd : ¬ IsEnd first := by
          intro isEnd
          rw [Token.isKeyword, isEnd.kind_eq, beq_iff_eq] at here
          cases here
          exact other rfl
        apply ConfinedSkip.intro (enclosed.tail notEnd)
        intro after
        rw [List.cons_append, skipPast, if_pos here]
      · obtain ⟨token, member, isWord⟩ := closed
        have later : token ∈ rest := by
          rcases List.mem_cons.mp member with rfl | later
          · exact (here isWord).elim
          · exact later
        have others :=
          enclosed.suffix (suffix_cons first rest) (List.ne_nil_of_mem later)
        have skipped := ih others ⟨token, later, isWord⟩
        apply ConfinedSkip.intro skipped.rest
        intro after
        rw [List.cons_append, skipPast, if_neg here, skipped.append]

/-- Words are taken up to the end of the module at most. -/
theorem takeUntil_confined (stop : Token → Bool) (depth : Int) (enclosed : Enclosed tokens) :
    Confined (takeUntil stop depth) tokens := by
  induction tokens generalizing depth with
  | nil => exact (enclosed.ne_nil rfl).elim
  | cons first rest ih =>
      by_cases ends : (first.isKeyword .endmodule || (depth ≤ 0 && stop first)) = true
      · apply Confined.intro enclosed
        intro after
        rw [List.cons_append, takeUntil, if_pos ends]
      · have notEnd : ¬ IsEnd first := fun isEnd => ends (by rw [isEnd.1, Bool.true_or])
        have words := ih (depth + first.nesting) (enclosed.tail notEnd)
        apply Confined.intro words.rest
        intro after
        rw [List.cons_append, takeUntil, if_neg ends, words.append]

/-- The words in parentheses end before the end of the module. -/
theorem takeParenthesised_confined (enclosed : Enclosed tokens) :
    Confined takeParenthesised tokens := by
  by_cases opens : headIs (Token.isOperator "(") tokens = true
  · have words := takeUntil_confined (Token.isOperator ")") 0 (enclosed.drop_one opens)
    have closed := skipIf_confined (Token.isOperator ")") words.rest
    apply Confined.intro closed.rest
    intro after
    rw [takeParenthesised, enclosed.headIs_append, if_pos opens, enclosed.drop_one_append,
      words.append]
    dsimp only
    rw [closed.append]
  · apply Confined.intro enclosed
    intro after
    rw [takeParenthesised, enclosed.headIs_append, if_neg opens]

/-- A range ends before the end of the module, with or without its second bound. -/
theorem takeRange_confined (enclosed : Enclosed tokens) : Confined takeRange tokens := by
  have high := takeUntil_confined (fun token => token.isOperator ":" || token.isOperator "]") 0
    enclosed
  by_cases colon : headIs (Token.isOperator ":") (takeUntil
      (fun token => token.isOperator ":" || token.isOperator "]") 0 tokens).2 = true
  · have low := takeUntil_confined (Token.isOperator "]") 0 (high.rest.drop_one colon)
    have closed := skipIf_confined (Token.isOperator "]") low.rest
    apply Confined.intro closed.rest
    intro after
    simp only [takeRange, high.append, high.rest.headIs_append, colon, ↓reduceIte,
      high.rest.drop_one_append, low.append, closed.append]
    rfl
  · have closed := skipIf_confined (Token.isOperator "]") high.rest
    apply Confined.intro closed.rest
    intro after
    simp only [takeRange, high.append, high.rest.headIs_append, colon, Bool.false_eq_true,
      ↓reduceIte, closed.append]
    rfl

/-- Looking for a range is confined, whether there is one or not. -/
theorem takeRange?_confined (enclosed : Enclosed tokens) : Confined takeRange? tokens := by
  by_cases opens : headIs (Token.isOperator "[") tokens = true
  · have range := takeRange_confined (enclosed.drop_one opens)
    apply Confined.intro range.rest
    intro after
    rw [takeRange?, enclosed.headIs_append, if_pos opens, enclosed.drop_one_append, range.append]
  · apply Confined.intro enclosed
    intro after
    rw [takeRange?, enclosed.headIs_append, if_neg opens]

/-- Skipping all ranges at the front is confined. The induction is on the number of tokens, as each
range takes one at least. -/
theorem skipRanges_confined (enclosed : Enclosed tokens) : ConfinedSkip skipRanges tokens := by
  fun_induction skipRanges tokens with
  | case1 => exact (enclosed.ne_nil rfl).elim
  | case2 first rest opens ih =>
      have range := takeRange_confined (enclosed.tail (SparesEnd.not_isEnd opens))
      have ranges := ih range.rest
      apply ConfinedSkip.intro ranges.rest
      intro after
      rw [List.cons_append, skipRanges, if_pos opens, range.append, ranges.append]
  | case3 first rest other =>
      apply ConfinedSkip.intro enclosed
      intro after
      rw [List.cons_append, skipRanges, if_neg other]

end Cursor

section Statements

variable {tokens rest : List Token} {first : Token}

/-- Skipping the label of a block is confined: neither the colon nor the name is the end of the
module. -/
theorem skipBlockLabel_confined (enclosed : Enclosed tokens) :
    ConfinedSkip skipBlockLabel tokens := by
  match tokens with
  | [] => exact (enclosed.ne_nil rfl).elim
  | [last] =>
      have noColon : last.isOperator ":" = false := SparesEnd.spares last enclosed.isEnd
      apply ConfinedSkip.intro enclosed
      intro after
      cases after with
      | nil => rfl
      | cons next after =>
          rw [List.cons_append, List.nil_append, skipBlockLabel, noColon, Bool.false_and]
          rfl
  | colon :: label :: rest =>
      by_cases labelled : (colon.isOperator ":" && label.isIdentifier) = true
      · obtain ⟨isColon, isName⟩ := Bool.and_eq_true_iff.mp labelled
        have body := (enclosed.tail (SparesEnd.not_isEnd isColon)).tail (SparesEnd.not_isEnd isName)
        apply ConfinedSkip.intro body
        intro after
        rw [List.cons_append, List.cons_append, skipBlockLabel, if_pos labelled]
      · apply ConfinedSkip.intro enclosed
        intro after
        rw [List.cons_append, List.cons_append, skipBlockLabel, if_neg labelled]

/-- A delay before a right side leaves the end of the module. -/
theorem Enclosed.drop_two (enclosed : Enclosed tokens)
    (delayed : headIs (Token.isOperator "#") tokens = true) :
    Enclosed (tokens.drop 2) ∧ ∀ after, (tokens ++ after).drop 2 = tokens.drop 2 ++ after := by
  match tokens with
  | [] => exact (enclosed.ne_nil rfl).elim
  | [last] =>
      have isMark : last.isOperator "#" = true := delayed
      exact (SparesEnd.not_isEnd isMark enclosed.isEnd).elim
  | mark :: amount :: rest =>
      refine ⟨enclosed.suffix ((suffix_cons amount rest).trans (suffix_cons mark _)) ?_,
        fun after => rfl⟩
      rintro rfl
      exact enclosed.delays [mark, amount] (suffix_refl _) delayed rfl

/-- The right side of an assignment ends before the end of the module. A delay mark is never the
last token before it, so the skip after the mark stays inside. -/
theorem takeRightSide_confined (enclosed : Enclosed tokens) : Confined takeRightSide tokens := by
  by_cases delayed : headIs (Token.isOperator "#") tokens = true
  · obtain ⟨others, drop⟩ := enclosed.drop_two delayed
    have words := takeUntil_confined endsAssignment 0 others
    have closed := skipIf_confined (Token.isOperator ";") words.rest
    apply Confined.intro closed.rest
    intro after
    simp only [takeRightSide, enclosed.headIs_append, delayed, ↓reduceIte, drop, words.append,
      closed.append]
    rfl
  · have words := takeUntil_confined endsAssignment 0 enclosed
    have closed := skipIf_confined (Token.isOperator ";") words.rest
    apply Confined.intro closed.rest
    intro after
    simp only [takeRightSide, enclosed.headIs_append, delayed, Bool.false_eq_true, ↓reduceIte,
      words.append, closed.append]
    rfl

/-- An assignment after its target ends before the end of the module, also where it turns out to be
none. -/
theorem takeAssignment_confined (target : Token) (enclosed : Enclosed tokens) :
    Confined (takeAssignment target) tokens := by
  have ranges := skipRanges_confined enclosed
  by_cases blocking : headIs (Token.isOperator "=") (skipRanges tokens) = true
  · have right := takeRightSide_confined (ranges.rest.drop_one blocking)
    apply Confined.intro right.rest
    intro after
    simp only [takeAssignment, ranges.append, ranges.rest.headIs_append, blocking, ↓reduceIte,
      ranges.rest.drop_one_append, right.append]
    rfl
  · by_cases nonblocking : headIs (Token.isOperator "<=") (skipRanges tokens) = true
    · have right := takeRightSide_confined (ranges.rest.drop_one nonblocking)
      apply Confined.intro right.rest
      intro after
      simp only [takeAssignment, ranges.append, ranges.rest.headIs_append, blocking, nonblocking,
        Bool.false_eq_true, ↓reduceIte, ranges.rest.drop_one_append, right.append]
      rfl
    · have skipped := skipStatement_confined 0 ranges.rest
      apply Confined.intro skipped.rest
      intro after
      simp only [takeAssignment, ranges.append, ranges.rest.headIs_append, blocking, nonblocking,
        Bool.false_eq_true, ↓reduceIte, skipped.append]
      rfl

/-- The readers of procedural code stop at the end of the module. -/
structure ReadsConfined (tokens : List Token) : Prop where
  statement : Confined takeStatement tokens
  block : Confined takeBlock tokens
  items : Confined takeCaseItems tokens

/-- Whether a reader got on is the same whatever comes after the tokens. -/
theorem length_append_lt {others : List Token} (after : List Token) :
    (others ++ after).length < (first :: (rest ++ after)).length ↔
      others.length < (first :: rest).length := by
  simp only [List.length_append, List.length_cons]
  omega

section Step

variable
  (shorter : ∀ others : List Token, Enclosed others → others.length ≤ rest.length →
    ReadsConfined others)

include shorter

/-- A branch is confined if the statements in it are. -/
theorem takeBranch_confined (enclosed : Enclosed rest) : Confined takeBranch rest := by
  have condition := takeParenthesised_confined enclosed
  have inside := length_takeParenthesised_le rest
  have thenPart := (shorter _ condition.rest inside).statement
  by_cases otherwise : headIs (Token.isKeyword .else_)
      (takeStatement (takeParenthesised rest).2).2 = true
  · have elsePart := (shorter _ (thenPart.rest.drop_one otherwise) (by
      rw [List.length_drop]
      exact Nat.le_trans (Nat.sub_le _ _)
        (Nat.le_trans (readStatement (takeParenthesised rest).2).length_le inside))).statement
    apply Confined.intro elsePart.rest
    intro after
    simp only [takeBranch, condition.append, thenPart.append, thenPart.rest.headIs_append,
      otherwise, ↓reduceIte, thenPart.rest.drop_one_append, elsePart.append]
    rfl
  · apply Confined.intro thenPart.rest
    intro after
    simp only [takeBranch, condition.append, thenPart.append, thenPart.rest.headIs_append,
      otherwise, Bool.false_eq_true, ↓reduceIte]
    rfl

/-- A case statement is confined if its entries are. -/
theorem takeSelect_confined (enclosed : Enclosed rest) : Confined takeSelect rest := by
  have subject := takeParenthesised_confined enclosed
  have items := (shorter _ subject.rest (length_takeParenthesised_le rest)).items
  apply Confined.intro items.rest
  intro after
  simp only [takeSelect, subject.append, items.append]
  rfl

/-- A loop is confined if its body is. -/
theorem takeLoop_confined {others : List Token} (enclosed : Enclosed others)
    (le : others.length ≤ rest.length) : Confined takeLoop others := by
  have body := (shorter others enclosed le).statement
  apply Confined.intro body.rest
  intro after
  simp only [takeLoop, body.append]
  rfl

/-- What starts with no reserved word of its own is confined: a case variant, an assignment or a
statement that is skipped. -/
theorem takeOther_confined (enclosed : Enclosed (first :: rest)) :
    Confined (takeOther first) rest := by
  by_cases empty : first.isOperator ";" = true
  · apply Confined.intro (enclosed.tail (SparesEnd.not_isEnd empty))
    intro after
    rw [takeOther, if_pos empty]
  · by_cases delayed : first.isOperator "#" = true
    · have delay := skipIf_confined isDelay (enclosed.tail (SparesEnd.not_isEnd delayed))
      have statement := (shorter _ delay.rest (length_skipIf_le isDelay rest)).statement
      apply Confined.intro statement.rest
      intro after
      rw [takeOther, if_neg empty, if_pos delayed, delay.append, statement.append]
    · have skipped := skipStatement_confined 0 enclosed
      apply Confined.intro skipped.rest
      intro after
      rw [takeOther, if_neg empty, if_neg delayed, ← List.cons_append, skipped.append]

/-- **A statement does not read past the end of the module**, when shorter lists are read so. Each
kind of statement is a chain of confined readers. -/
theorem takeStatement_confined_cons (enclosed : Enclosed (first :: rest)) :
    Confined takeStatement (first :: rest) := by
  have opens (tokens : List Token) := takeStatement_cons first tokens
  cases kind : first.kind with
  | keyword word =>
      by_cases isEnd : word = .endmodule
      · subst isEnd
        simp only [kind] at opens
        apply Confined.intro enclosed
        intro after
        rw [List.cons_append, opens]
      have others : Enclosed rest := enclosed.tail fun both => by
        rw [both.kind_eq, TokenKind.keyword.injEq] at kind
        exact isEnd kind.symm
      have head := takeParenthesised_confined others
      have headLe := length_takeParenthesised_le rest
      cases word with
      | begin_ =>
          have label := skipBlockLabel_confined others
          have block := (shorter _ label.rest (length_skipBlockLabel_le rest)).block
          simp only [kind] at opens
          exact (Confined.after_skip label block).cons opens
      | if_ =>
          simp only [kind] at opens
          exact (takeBranch_confined shorter others).cons opens
      | case_ =>
          simp only [kind] at opens
          exact (takeSelect_confined shorter others).cons opens
      | for_ | while_ | repeat_ =>
          simp only [kind] at opens
          exact (Confined.after_read head (takeLoop_confined shorter head.rest headLe)).cons opens
      | forever =>
          simp only [kind] at opens
          exact (takeLoop_confined shorter others (Nat.le_refl _)).cons opens
      | end_ | endcase | else_ =>
          simp only [kind] at opens
          apply Confined.intro enclosed
          intro after
          rw [List.cons_append, opens]
      | endmodule => exact (isEnd rfl).elim
      | _ =>
          simp only [kind] at opens
          exact (takeOther_confined shorter enclosed).cons opens
  | identifier =>
      have others : Enclosed rest := enclosed.tail fun both => by
        rw [both.kind_eq] at kind
        cases kind
      simp only [kind] at opens
      by_cases variant : isCaseVariant first = true
      · simp only [variant, ↓reduceIte] at opens
        exact (takeSelect_confined shorter others).cons opens
      · simp only [variant, Bool.false_eq_true, ↓reduceIte] at opens
        exact (takeAssignment_confined first others).cons opens
  | number | operator | string | comment =>
      simp only [kind] at opens
      exact (takeOther_confined shorter enclosed).cons opens

/-- **A block does not read past the end of the module**, when shorter lists are read so. -/
theorem takeBlock_confined_cons (enclosed : Enclosed (first :: rest)) :
    Confined takeBlock (first :: rest) := by
  by_cases isEnd : first.isKeyword .endmodule = true
  · apply Confined.intro enclosed
    intro after
    rw [List.cons_append, takeBlock_cons, if_pos isEnd]
  have others := enclosed.tail fun both => isEnd both.1
  by_cases ends : first.isKeyword .end_ = true
  · apply Confined.intro others
    intro after
    rw [List.cons_append, takeBlock_cons, if_neg isEnd, if_pos ends]
  have statement := takeStatement_confined_cons shorter enclosed
  by_cases fewer : (takeStatement (first :: rest)).2.length < (first :: rest).length
  · have following := (shorter _ statement.rest (Nat.le_of_lt_succ fewer)).block
    apply Confined.intro following.rest
    intro after
    rw [List.cons_append, takeBlock_cons, if_neg isEnd, if_neg ends, ← List.cons_append,
      statement.append]
    simp only [List.cons_append, (length_append_lt after).mpr fewer, ↓reduceIte, following.append]
    rfl
  · have following := (shorter _ others (Nat.le_refl _)).block
    apply Confined.intro following.rest
    intro after
    rw [List.cons_append, takeBlock_cons, if_neg isEnd, if_neg ends, ← List.cons_append,
      statement.append]
    simp only [List.cons_append, mt (length_append_lt after).mp fewer, ↓reduceIte, following.append]
    rfl

/-- The body of an entry and the entries after it. -/
theorem takeEntry_confined (entry : List Procedure → CaseItem) {others : List Token}
    (enclosed : Enclosed others) (le : others.length ≤ rest.length) :
    Confined (fun tokens => (entry (takeStatement tokens).1 ::
      (takeCaseItems (takeStatement tokens).2).1, (takeCaseItems (takeStatement tokens).2).2))
      others := by
  have body := (shorter others enclosed le).statement
  have left := (readStatement others).length_le
  have following := (shorter _ body.rest (Nat.le_trans left le)).items
  exact Confined.pair (fun body items => entry body :: items) body following

/-- **The entries of a case statement do not read past the end of the module**, when shorter lists
are read so. An entry is a default, or labels with an arm after their colon. -/
theorem takeCaseItems_confined_cons (enclosed : Enclosed (first :: rest)) :
    Confined takeCaseItems (first :: rest) := by
  have opens (tokens : List Token) := takeCaseItems_cons first tokens
  by_cases isEnd : first.isKeyword .endmodule = true
  · simp only [isEnd, ↓reduceIte] at opens
    apply Confined.intro enclosed
    intro after
    rw [List.cons_append, opens]
  have others := enclosed.tail fun both => isEnd both.1
  by_cases ends : first.isKeyword .endcase = true
  · simp only [isEnd, ends, Bool.false_eq_true, ↓reduceIte] at opens
    apply Confined.intro others
    intro after
    rw [List.cons_append, opens]
  by_cases default : first.isKeyword .default_ = true
  · simp only [isEnd, ends, default, Bool.false_eq_true, ↓reduceIte] at opens
    have colon := skipIf_confined (Token.isOperator ":") others
    have entry := takeEntry_confined shorter .otherwise colon.rest (length_skipIf_le _ rest)
    exact (Confined.after_skip colon entry).cons opens
  simp only [isEnd, ends, default, Bool.false_eq_true, ↓reduceIte] at opens
  have labels := takeUntil_confined endsLabels 0 enclosed
  have inside := length_takeLabels_le_cons first rest
  cases read : takeUntil endsLabels 0 (first :: rest) with
  | mk words left =>
      rw [read] at inside
      obtain ⟨enclosedLeft, same⟩ := labels
      rw [read] at enclosedLeft same
      cases left with
      | nil => exact (enclosedLeft.ne_nil rfl).elim
      | cons colon left =>
          have le : left.length ≤ rest.length := Nat.le_of_succ_le_succ inside
          by_cases isColon : colon.isOperator ":" = true
          · have entry := takeEntry_confined shorter (.arm (labels words))
              (enclosedLeft.tail (SparesEnd.not_isEnd isColon)) le
            apply Confined.intro entry.rest
            intro after
            rw [List.cons_append, opens, ← List.cons_append, same]
            simp only [List.cons_append, isColon, ↓reduceIte]
            exact entry.append after
          · by_cases fewer : (colon :: left).length < (first :: rest).length
            · have following := (shorter _ enclosedLeft (Nat.le_of_lt_succ fewer)).items
              apply Confined.intro following.rest
              intro after
              have still : (colon :: (left ++ after)).length < (first :: (rest ++ after)).length :=
                (length_append_lt after).mpr fewer
              rw [List.cons_append, opens, ← List.cons_append, same]
              simp only [List.cons_append, isColon, Bool.false_eq_true, ↓reduceIte]
              rw [if_pos still]
              exact following.append after
            · have following := (shorter _ others (Nat.le_refl _)).items
              apply Confined.intro following.rest
              intro after
              have still :
                  ¬ (colon :: (left ++ after)).length < (first :: (rest ++ after)).length :=
                fun less => fewer ((length_append_lt after).mp less)
              rw [List.cons_append, opens, ← List.cons_append, same]
              simp only [List.cons_append, isColon, Bool.false_eq_true, ↓reduceIte]
              rw [if_neg still]
              exact following.append after

end Step

/-- **Reading procedural code stops at the end of the module.** -/
theorem readsConfined {tokens : List Token} (enclosed : Enclosed tokens) :
    ReadsConfined tokens := by
  induction size : tokens.length using Nat.strong_induction_on generalizing tokens with
  | _ bound ih =>
      cases tokens with
      | nil => exact (enclosed.ne_nil rfl).elim
      | cons first rest =>
          have shorter (others : List Token) (enclosed : Enclosed others)
              (le : others.length ≤ rest.length) : ReadsConfined others :=
            ih others.length (size ▸ Nat.lt_succ_of_le le) enclosed rfl
          exact ⟨takeStatement_confined_cons shorter enclosed,
            takeBlock_confined_cons shorter enclosed, takeCaseItems_confined_cons shorter enclosed⟩

end Statements

end MiniVerilog.Source
