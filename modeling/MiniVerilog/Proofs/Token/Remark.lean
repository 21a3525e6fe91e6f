import MiniVerilog.Proofs.Token.Comment

/-! # Line comments at the end of a line

A line that ends in code is read as before when a line comment is added at its end: its tokens
are the same but for comments (`MiniVerilog.Token.scanLine_remark`).
-/

namespace MiniVerilog.Token

/-- The scan of a line ends outside block comments and outside strings: no comment is open at
its end, and every string has its closing quote. -/
structure EndsInCode (scanned : List Token × Bool) : Prop where
  comment : scanned.2 = false
  strings : ∀ token ∈ scanned.1, token.kind = .string →
    closesString (token.text.toList.drop 1) = true

/-- A line that starts inside or outside a block comment is complete, piece by piece: nothing of
it goes on over its end but a line comment. -/
inductive Complete : Bool → List Char → Prop
  | done : Complete false []
  | lineComment {first : Char} {rest : List Char}
      (starts : Start.of first rest.head? = .lineComment) : Complete false (first :: rest)
  | piece {first : Char} {rest : List Char} (ends : runsOn first rest = false)
      (following : Complete false (rest.drop (pieceAt first rest).following)) :
      Complete false (first :: rest)
  | comment {first : Char} {rest : List Char} {length : Nat}
      (closed : commentLength? (first :: rest) = some (length + 1))
      (following : Complete false (rest.drop length)) : Complete true (first :: rest)

/-- A piece with an end of its own leaves no comment open. -/
theorem opensComment_of_ends {first : Char} {rest : List Char} (ends : runsOn first rest = false) :
    (pieceAt first rest).opensComment = false := by
  rw [pieceAt_eq]
  unfold runsOn at ends
  generalize Start.of first rest.head? = start at ends
  cases start with
  | blockComment =>
      obtain ⟨length, closed⟩ := Option.isSome_iff_exists.mp (Option.isNone_eq_false_iff.mp ends)
      simp only [Start.piece, closed]
  | lineComment | string => rfl
  | separator | name | number | based | operator => exact Start.opensComment_of_isCode rfl _ _

/-- A piece without an end that is no line comment leaves a comment open, or it is a string. -/
theorem unclosed_of_runsOn {first : Char} {rest : List Char} (runs : runsOn first rest = true)
    (noLine : Start.of first rest.head? ≠ .lineComment) :
    pieceAt first rest = ⟨some .comment, rest.length, true⟩ ∨
      pieceAt first rest = ⟨some .string, rest.length, false⟩ ∧ closesString rest = false := by
  rw [pieceAt_eq]
  unfold runsOn at runs
  generalize Start.of first rest.head? = start at runs noLine
  cases start with
  | lineComment => exact (noLine rfl).elim
  | blockComment =>
      have unclosed := Option.isNone_iff_eq_none.mp runs
      exact .inl (by simp only [Start.piece, unclosed])
  | string =>
      have unclosed : closesString rest = false := (Bool.not_eq_true' _).mp runs
      refine .inr ⟨?_, unclosed⟩
      rw [Start.piece, stringLength_of_not_closesString unclosed]
  | separator | name | number | based | operator => cases runs

/-- In a comment a line is complete if what follows its first piece is. -/
theorem Complete.of_comment {first : Char} {rest : List Char}
    (following : Complete (linePiece true first rest).opensComment
      (rest.drop (linePiece true first rest).following)) : Complete true (first :: rest) := by
  cases closed : commentLength? (first :: rest) with
  | some length =>
      obtain ⟨length, rfl⟩ := Nat.exists_eq_add_one.mpr (commentLength?_pos closed)
      rw [linePiece_of_closed closed] at following
      exact .comment closed following
  | none =>
      -- the comment takes the whole line, and the empty rest is not complete inside a comment
      simp only [linePiece, ↓reduceIte, commentPiece, closed, List.drop_length] at following
      cases following

/-- In code a line is complete if its first piece is no string without an end and what follows it is
complete. -/
theorem Complete.of_code {first : Char} {rest : List Char}
    (closed : (pieceAt first rest).kind = some .string →
      closesString (rest.take (pieceAt first rest).following) = true)
    (following : Complete (pieceAt first rest).opensComment
      (rest.drop (pieceAt first rest).following)) : Complete false (first :: rest) := by
  by_cases isLine : Start.of first rest.head? = .lineComment
  · exact .lineComment isLine
  by_cases runs : runsOn first rest = true
  · rcases unclosed_of_runsOn runs isLine with opens | ⟨isString, unclosed⟩
    · rw [opens, List.drop_length] at following
      cases following
    · rw [isString, List.take_length, unclosed] at closed
      cases closed rfl
  · have ends := Bool.eq_false_iff.mpr runs
    rw [opensComment_of_ends ends] at following
    exact .piece ends following

/-- **A rest of a line that ends in code is complete**, by induction piece by piece. -/
theorem complete_of_scanFrom {line column : Nat} {inComment : Bool} {cs : List Char}
    (ends : EndsInCode (scanFrom line column inComment cs)) : Complete inComment cs := by
  induction size : cs.length using Nat.strong_induction_on generalizing column inComment cs with
  | _ bound ih =>
      cases cs with
      | nil =>
          rw [scanFrom_nil] at ends
          obtain rfl : inComment = false := ends.comment
          exact .done
      | cons first rest =>
          have shorter : (rest.drop (linePiece inComment first rest).following).length < bound := by
            rw [← size, List.length_drop, List.length_cons]
            omega
          obtain ⟨comment, strings⟩ := ends
          rw [scanFrom_cons_snd] at comment
          rw [scanFrom_cons] at strings
          obtain ⟨own, others⟩ := List.forall_mem_append.mp strings
          have following := ih _ shorter ⟨comment, others⟩ rfl
          cases inComment with
          | true => exact .of_comment following
          | false =>
              refine .of_code (fun isString => ?_) following
              have closed := own ⟨.string, _, line, column⟩
                (Option.mem_toList.mpr (Option.map_eq_some_iff.mpr ⟨_, isString, rfl⟩)) rfl
              rwa [String.toList_ofList] at closed

/-- The comment that is added at the end of a line. -/
def remark (text : List Char) : List Char :=
  ' ' :: '/' :: '/' :: text

/-- The token is no comment. -/
def isKept (token : Token) : Bool :=
  token.kind != .comment

theorem delimited_remark (text : List Char) : Delimited (remark text) :=
  .cons (by decide) _

theorem scanFrom_remark_alone (line column : Nat) (text : List Char) :
    scanFrom line column false (remark text) =
      ([⟨.comment, String.ofList ('/' :: '/' :: text), line, column + 1⟩], false) := by
  rw [remark, scanFrom_blank (by decide), scanFrom_lineComment]

/-- The tokens that are no comments stay, and no comment is open at the end. -/
theorem scanFrom_remark {inComment : Bool} {cs : List Char} (complete : Complete inComment cs)
    (line column : Nat) (text : List Char) :
    (scanFrom line column inComment (cs ++ remark text)).1.filter isKept =
        (scanFrom line column inComment cs).1.filter isKept ∧
      (scanFrom line column inComment (cs ++ remark text)).2 = false ∧
      (scanFrom line column inComment cs).2 = false := by
  induction complete generalizing column with
  | done =>
      rw [List.nil_append, scanFrom_remark_alone, scanFrom_nil]
      exact ⟨rfl, rfl, rfl⟩
  | lineComment starts =>
      obtain ⟨rfl, before, rfl⟩ := Start.eq_of_lineComment starts
      rw [List.cons_append, List.cons_append, scanFrom_lineComment, scanFrom_lineComment]
      exact ⟨rfl, rfl, rfl⟩
  | @piece first rest ends _ ih =>
      have inside := following_pieceAt_le first rest
      have same := pieceAt_append ends (delimited_remark text)
      rw [List.cons_append, scanFrom_cons, scanFrom_cons_snd, scanFrom_cons, scanFrom_cons_snd]
      simp only [linePiece, Bool.false_eq_true, ↓reduceIte, same, opensComment_of_ends ends,
        List.take_append_of_le_length inside, List.drop_append_of_le_length inside,
        List.filter_append]
      obtain ⟨kept, rest⟩ := ih (column + 1 + (pieceAt first rest).following)
      exact ⟨congrArg _ kept, rest⟩
  | @comment first rest length closed _ ih =>
      have inside := commentLength?_le closed
      rw [List.length_cons] at inside
      have inside := Nat.le_of_succ_le_succ inside
      have same := commentLength?_append closed (remark text)
      rw [List.cons_append] at same
      rw [List.cons_append, scanFrom_cons, scanFrom_cons_snd, scanFrom_cons, scanFrom_cons_snd,
        linePiece_of_closed closed, linePiece_of_closed same]
      simp only [List.take_append_of_le_length inside, List.drop_append_of_le_length inside,
        List.filter_append]
      obtain ⟨kept, rest⟩ := ih (column + 1 + length)
      exact ⟨congrArg _ kept, rest⟩

/-- The shortcut for lines with only a line comment finds the same code. -/
theorem filter_scanLine (line : Nat) (inComment : Bool) (cs : List Char) :
    (scanLine line inComment cs).1.filter isKept =
        (scanFrom line 1 inComment cs).1.filter isKept ∧
      (scanLine line inComment cs).2 = (scanFrom line 1 inComment cs).2 := by
  rcases scanLine_eq_or line inComment cs with same | ⟨text, column, rfl, pieces, whole⟩
  · rw [same]
    exact ⟨rfl, rfl⟩
  · rw [pieces, whole]
    exact ⟨rfl, rfl⟩

/-- A line that ends in code is complete. -/
theorem complete_of_scanLine {line : Nat} {inComment : Bool} {cs : List Char}
    (ends : EndsInCode (scanLine line inComment cs)) : Complete inComment cs := by
  rcases scanLine_eq_or line inComment cs with same | ⟨text, column, rfl, pieces, -⟩
  · rw [same] at ends
    exact complete_of_scanFrom ends
  · refine @complete_of_scanFrom line 1 false cs ?_
    rw [pieces]
    refine ⟨rfl, List.forall_mem_singleton.mpr fun isString => ?_⟩
    cases isString

/-- **A line comment at the end of a line that ends in code is all that is added.** -/
theorem scanLine_remark {line : Nat} {inComment : Bool} {cs : List Char}
    (ends : EndsInCode (scanLine line inComment cs)) (text : List Char) :
    (scanLine line inComment (cs ++ remark text)).1.filter isKept =
        (scanLine line inComment cs).1.filter isKept ∧
      (scanLine line inComment (cs ++ remark text)).2 = (scanLine line inComment cs).2 := by
  obtain ⟨kept, newState, oldState⟩ := scanFrom_remark (complete_of_scanLine ends) line 1 text
  obtain ⟨new, newEnd⟩ := filter_scanLine line inComment (cs ++ remark text)
  obtain ⟨old, oldEnd⟩ := filter_scanLine line inComment cs
  rw [new, old, newEnd, oldEnd, newState, oldState]
  exact ⟨kept, rfl⟩

end MiniVerilog.Token
