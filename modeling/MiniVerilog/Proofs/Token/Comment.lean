import MiniVerilog.Proofs.Text.Blank
import MiniVerilog.Proofs.Token.Continued
import MiniVerilog.Proofs.Token.Plain

/-! # Comments among the tokens

A line comment is the piece that starts at two slashes. A line with only a line comment is read
at once, and piece by piece it has the same comment (`MiniVerilog.Token.scanLine_eq_or`).
-/

namespace MiniVerilog.Token

/-- The token is a comment whose text starts as a line comment does. -/
def isLineComment (token : Token) : Bool :=
  token.kind == .comment && ['/', '/'].isPrefixOf token.text.toList

/-- The line comments among the tokens of a line. On a line that starts inside a block comment
the first token is the rest of that comment, whatever its text is. -/
def lineComments (inComment : Bool) (tokens : List Token) : List Token :=
  (if inComment then tokens.drop 1 else tokens).filter isLineComment

theorem isLineComment_of_ne {token : Token} (noComment : token.kind ≠ .comment) :
    isLineComment token = false := by
  rw [isLineComment, beq_eq_false_iff_ne.mpr noComment, Bool.false_and]

/-- The token of a piece is a line comment if one starts there. -/
theorem isLineComment_piece {first : Char} {rest : List Char} {start : Start}
    (starts : Start.of first rest.head? = start) {kind : TokenKind}
    (isKind : (start.piece first rest).kind = some kind) (line column : Nat) :
    isLineComment ⟨kind, String.ofList (first :: rest.take (start.piece first rest).following),
        line, column⟩ = true ↔
      start = .lineComment := by
  by_cases isLine : start = .lineComment
  · subst isLine
    obtain ⟨rfl, text, rfl⟩ := Start.eq_of_lineComment starts
    cases isKind
    simp [isLineComment, Start.piece]
  · refine iff_of_false (Bool.not_eq_true _ ▸ ?_) isLine
    by_cases isBlock : start = .blockComment
    · subst isBlock
      obtain ⟨rfl, text, rfl⟩ := Start.eq_of_blockComment starts
      simp only [Start.piece, isLineComment, String.toList_ofList, Bool.and_eq_false_iff]
      refine .inr ?_
      split <;> rfl
    · apply isLineComment_of_ne
      rintro rfl
      exact Start.kind_ne_comment isLine isBlock first rest isKind

/-- No other piece is a line comment. -/
theorem lineComments_piece {first : Char} {rest : List Char}
    (noLine : Start.of first rest.head? ≠ .lineComment) (line column : Nat) :
    (((pieceAt first rest).kind.map fun kind =>
      (⟨kind, String.ofList (first :: rest.take (pieceAt first rest).following), line, column⟩ :
        Token)).toList.filter isLineComment) = [] := by
  rw [pieceAt_eq]
  cases isKind : ((Start.of first rest.head?).piece first rest).kind with
  | none => rfl
  | some kind =>
      have other := mt (isLineComment_piece rfl isKind line column).mp noLine
      exact List.filter_cons_of_neg other

/-- A block comment that ends on the line is a piece of it. -/
theorem linePiece_of_closed {first : Char} {rest : List Char} {length : Nat}
    (closed : commentLength? (first :: rest) = some (length + 1)) :
    linePiece true first rest = ⟨some .comment, length, false⟩ := by
  simp only [linePiece, ↓reduceIte, commentPiece, closed, Nat.add_sub_cancel]

/-- A line comment takes the rest of the line. -/
theorem scanFrom_lineComment (line column : Nat) (text : List Char) :
    scanFrom line column false ('/' :: '/' :: text) =
      ([⟨.comment, String.ofList ('/' :: '/' :: text), line, column⟩], false) := by
  have piece : pieceAt '/' ('/' :: text) = ⟨some .comment, ('/' :: text).length, false⟩ := by
    rw [pieceAt_eq, List.head?_cons, Start.of_slash]
    rfl
  apply Prod.ext
  · rw [scanFrom_cons]
    simp only [linePiece, Bool.false_eq_true, ↓reduceIte, piece, List.drop_length, List.take_length,
      scanFrom_nil]
    rfl
  · rw [scanFrom_cons_snd]
    simp only [linePiece, Bool.false_eq_true, ↓reduceIte, piece, List.drop_length, scanFrom_nil]

/-- A blank at the front of a line is skipped alone. -/
theorem scanFrom_blank {c : Char} (blank : Text.isBlank c = true) (line column : Nat)
    (rest : List Char) :
    scanFrom line column false (c :: rest) = scanFrom line (column + 1) false rest := by
  have piece : linePiece false c rest = ⟨none, 0, false⟩ := pieceAt_blank blank rest
  apply Prod.ext
  · rw [scanFrom_cons, piece]
    rfl
  · rw [scanFrom_cons_snd, piece]
    rfl

/-- Blanks in front move the column on and give no token. -/
theorem scanFrom_blanks {before : List Char} (blank : ∀ c ∈ before, Text.isBlank c = true)
    (line column : Nat) (rest : List Char) : scanFrom line column false (before ++ rest) =
      scanFrom line (column + before.length) false rest := by
  induction before generalizing column with
  | nil => rfl
  | cons c before ih =>
      obtain ⟨first, others⟩ := List.forall_mem_cons.mp blank
      rw [List.cons_append, scanFrom_blank first, ih others, List.length_cons, Nat.add_assoc,
        Nat.add_comm 1]

/-- A line whose first characters that are not blank are two slashes is a line comment after
blanks. -/
theorem exists_of_isPrefixOf_trimStart {cs : List Char}
    (comment : ['/', '/'].isPrefixOf (Text.trimStart cs) = true) :
    ∃ before text, cs = before ++ '/' :: '/' :: text ∧ Text.trimStart cs = '/' :: '/' :: text ∧
      ∀ c ∈ before, Text.isBlank c = true := by
  obtain ⟨text, start⟩ := List.isPrefixOf_iff_prefix.mp comment
  refine ⟨cs.takeWhile Text.isBlank, text, ?_, start.symm, fun c => List.mem_takeWhile_imp⟩
  change cs = cs.takeWhile Text.isBlank ++ (['/', '/'] ++ text)
  rw [start, Text.trimStart, List.takeWhile_append_dropWhile]

/-- **A line with only a line comment has that comment piece by piece as well**, but for the
blanks at its end. Any other line is read piece by piece. -/
theorem scanLine_eq_or (line : Nat) (inComment : Bool) (cs : List Char) :
    scanLine line inComment cs = scanFrom line 1 inComment cs ∨
      ∃ text column, inComment = false ∧
        scanFrom line 1 inComment cs =
          ([⟨.comment, String.ofList ('/' :: '/' :: text), line, column⟩], false) ∧
        scanLine line inComment cs =
          ([⟨.comment, String.ofList ('/' :: '/' :: Text.trimEnd text), line, column⟩], false) := by
  unfold scanLine
  simp only
  split
  · rename_i comment
    obtain ⟨outside, comment⟩ := Bool.and_eq_true_iff.mp comment
    obtain rfl := (Bool.not_eq_true' _).mp outside
    obtain ⟨before, text, split, start, blank⟩ := exists_of_isPrefixOf_trimStart comment
    have column : cs.length - (Text.trimStart cs).length + 1 = 1 + before.length := by
      rw [start, split, List.length_append]
      omega
    refine .inr ⟨text, 1 + before.length, rfl, ?_, ?_⟩
    · rw [split, scanFrom_blanks blank, scanFrom_lineComment]
    · rw [column, start, Text.trimEnd_cons (by decide), Text.trimEnd_cons (by decide)]
  · exact .inl rfl

end MiniVerilog.Token
