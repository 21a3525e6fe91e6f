import MiniVerilog.Proofs.Lint.Pieces
import MiniVerilog.Proofs.Token.Comment

/-! # Where comments are

The scanner cuts a line into pieces and the linter copies it character by character. Both
find the same comments: after every line a block comment is open for both or for neither, and
a line comment starts at the same column (`MiniVerilog.comments_agree`).
-/

namespace MiniVerilog

open Token (Start commentLength? commentPiece linePiece pieceAt scanFrom scanLine)

namespace Token

/-- What the scanner finds in a line is what the linter finds. -/
def Agrees (inComment : Bool) (scanned : List Token × Bool) (cleaned : Lint.Cleaned) : Prop :=
  (lineComments inComment scanned.1).map (·.column) = cleaned.lineComment?.toList ∧
    scanned.2 = cleaned.inComment

/-- Outside block comments the scanner and the linter go on piece by piece. -/
theorem agrees_of_code (line column : Nat) (cs : List Char) :
    Agrees false (scanFrom line column false cs) (Lint.cleanFrom column false cs) := by
  induction size : cs.length using Nat.strong_induction_on generalizing column cs with
  | _ bound ih =>
      cases cs with
      | nil =>
          rw [scanFrom_nil, Lint.cleanFrom]
          exact ⟨rfl, rfl⟩
      | cons first rest =>
          by_cases isLine : Start.of first rest.head? = .lineComment
          · obtain ⟨rfl, text, rfl⟩ := Start.eq_of_lineComment isLine
            rw [scanFrom_lineComment, Lint.cleanFrom]
            simp [Agrees, lineComments, isLineComment]
          · unfold Agrees lineComments
            rw [scanFrom_cons, scanFrom_cons_snd]
            simp only [linePiece, Bool.false_eq_true, ↓reduceIte]
            rw [List.filter_append, lineComments_piece isLine, Lint.cleanFrom_cons isLine]
            cases opens : (pieceAt first rest).opensComment with
            | true =>
                rw [eq_of_opensComment opens, List.drop_length, scanFrom_nil, Lint.cleanFrom]
                exact ⟨rfl, rfl⟩
            | false =>
                have shorter : (rest.drop (pieceAt first rest).following).length < bound := by
                  rw [← size, List.length_drop, List.length_cons]
                  omega
                exact ih _ shorter _ _ rfl

/-- Inside a block comment both go on to its end. -/
theorem agrees_of_comment (line column : Nat) (cs : List Char) :
    Agrees true (scanFrom line column true cs) (Lint.cleanFrom column true cs) := by
  cases cs with
  | nil =>
      rw [scanFrom_nil, Lint.cleanFrom]
      exact ⟨rfl, rfl⟩
  | cons first rest =>
      unfold Agrees lineComments
      rw [scanFrom_cons, scanFrom_cons_snd]
      cases closed : commentLength? (first :: rest) with
      | some length =>
          obtain ⟨following, rfl⟩ := Nat.exists_eq_add_one.mpr (commentLength?_pos closed)
          have columns : column + (following + 1) = column + 1 + following := by omega
          rw [linePiece_of_closed closed, Lint.cleanFrom_of_closed closed, columns]
          exact agrees_of_code line (column + 1 + following) (rest.drop following)
      | none =>
          rw [Lint.cleanFrom_of_open closed]
          simp only [linePiece, ↓reduceIte, commentPiece, closed, List.drop_length, scanFrom_nil]
          refine ⟨?_, trivial⟩
          split <;> rfl

/-- **The lexer and the cleaner agree on comments** on a rest of a line, by induction piece by
piece. -/
theorem agrees_scanFrom (line column : Nat) (inComment : Bool) (cs : List Char) :
    Agrees inComment (scanFrom line column inComment cs)
      (Lint.cleanFrom column inComment cs) := by
  cases inComment with
  | false => exact agrees_of_code line column cs
  | true => exact agrees_of_comment line column cs

/-- The shortcut for lines with only a line comment finds what the way by pieces finds. -/
theorem agrees_scanLine (line : Nat) (inComment : Bool) (cs : List Char) :
    Agrees inComment (scanLine line inComment cs) (Lint.cleanFrom 1 inComment cs) := by
  have found := agrees_scanFrom line 1 inComment cs
  rcases scanLine_eq_or line inComment cs with same | ⟨text, column, rfl, pieces, whole⟩
  · rwa [same]
  · rw [pieces] at found
    rw [whole]
    refine ⟨Eq.trans ?_ found.1, found.2⟩
    simp [lineComments, isLineComment]

end Token

namespace Lint

/-- Whether a block comment is open after consecutive lines. -/
def openAfter (inComment : Bool) : List (List Char) → Bool
  | [] => inComment
  | line :: lines => openAfter (clean inComment line).2 lines

/-- Later lines are cleaned with the comment that the earlier ones leave open. -/
theorem cleanLines_append (inComment : Bool) (before after : List (List Char)) :
    cleanLines inComment (before ++ after) =
      cleanLines inComment before ++ cleanLines (openAfter inComment before) after := by
  induction before generalizing inComment with
  | nil => rfl
  | cons line before ih => exact congrArg ((clean inComment line).1 :: ·) (ih _)

end Lint

/-- The lexer and the cleaner leave a comment open after the same lines. -/
theorem openAfter_agrees (line : Nat) (inComment : Bool) (lines : List (List Char)) :
    Token.openAfter line inComment lines = Lint.openAfter inComment lines := by
  induction lines generalizing line inComment with
  | nil => rfl
  | cons cs lines ih =>
      rw [Token.openAfter, Lint.openAfter, (Token.agrees_scanLine line inComment cs).2,
        Lint.clean_eq_cleanFrom 1 inComment cs, ih]

/-- **The scanner and the linter agree on where comments are.** After any number of lines a block
comment is open for both or for neither, and on the next line both start a line comment at the
same column, or neither starts one. -/
theorem comments_agree (source : String) (number : Nat) :
    let lines := Text.lines source.toList
    let scanned := Token.openAfter 1 false (lines.take number)
    let cleaned := Lint.openAfter false (lines.take number)
    scanned = cleaned ∧
      (lines[number]?.map fun line =>
        (Token.lineComments scanned (scanLine (number + 1) scanned line).1).map (·.column)) =
      lines[number]?.map fun line => (Lint.cleanFrom 1 cleaned line).lineComment?.toList := by
  intro lines scanned cleaned
  have same : scanned = cleaned := openAfter_agrees 1 false (lines.take number)
  refine ⟨same, Option.map_congr fun line _ => ?_⟩
  rw [← same]
  exact (Token.agrees_scanLine (number + 1) scanned line).1

/-- Two slashes in a string are no comment, nor are those around the star that opens one. -/
example : (Token.lineComments false (scanLine 1 false "a = \"//\"; /*/ */// b".toList).1).map
    (·.column) = [17] := by decide +kernel

end MiniVerilog
