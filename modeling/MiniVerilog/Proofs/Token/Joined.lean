import MiniVerilog.Proofs.Token.Comment
import MiniVerilog.Proofs.Token.Line

/-! # Tokens with one space between them

The texts of the tokens of a source, put together with one space between them, are cut into the
same tokens again (`MiniVerilog.Token.scan_joined`), unless there are comments, or strings without
a closing quote, over which no space tells the next token apart.
-/

namespace MiniVerilog.Token

/-- A string without a closing quote, which takes the whole rest of its line. -/
def IsUnclosed (token : Token) : Prop :=
  token.kind = .string ∧ closesString (token.text.toList.drop 1) = false

instance (token : Token) : Decidable token.IsUnclosed :=
  inferInstanceAs (Decidable (_ ∧ _))

theorem Start.eq_string {start : Start} (isStart : start.IsStartOf .string) : start = string := by
  cases start with
  | string => rfl
  | name => rcases isStart with same | ⟨word, same⟩ <;> cases same
  | separator | lineComment | blockComment | number | based | operator => cases isStart

/-- A string that has its closing quote is a lexeme. -/
theorem isLexeme_string {first : Char} {rest : List Char}
    (known : (pieceAt first rest).kind = some .string)
    (closed : closesString (rest.take (pieceAt first rest).following) = true) :
    IsLexeme .string (String.ofList (first :: rest.take (pieceAt first rest).following)) := by
  refine isLexeme_of_ends known (opensComment_of_kind known TokenKind.noConfusion) ?_
  have starts : Start.of first rest.head? = .string := by
    rw [pieceAt_eq] at known
    exact Start.eq_string (Start.isStartOf_of_kind known)
  obtain rfl := Start.eq_quote starts
  rw [runsOn, Start.of_quote, Start.runsOn, closed]
  rfl

/-- **A token of a source text that is no comment, and is closed if it is a string, is a lexeme.** -/
theorem isLexeme_of_closed {source : String} {token : Token} (scanned : token ∈ scan source)
    (noComment : token.kind ≠ .comment) (closed : ¬ token.IsUnclosed) :
    IsLexeme token.kind token.text := by
  by_cases isString : token.kind = .string
  · obtain ⟨first, rest, known, text⟩ := exists_pieceAt_of_mem_scan scanned noComment
    have ends : closesString (token.text.toList.drop 1) = true :=
      Bool.of_not_eq_false fun unclosed => closed ⟨isString, unclosed⟩
    rw [text, String.toList_ofList, List.drop_one, List.tail_cons] at ends
    rw [isString] at known ⊢
    rw [text]
    exact isLexeme_string known ends
  · exact isLexeme_of_mem_scan scanned noComment isString

/-- A line comment at the front of a text is its first token. -/
theorem exists_comment_of_isPrefixOf {cs : List Char}
    (comment : ['/', '/'].isPrefixOf (Text.trimStart cs) = true) :
    ∃ token ∈ bareTokens cs, token.kind = .comment := by
  obtain ⟨before, text, split, -, blank⟩ := exists_of_isPrefixOf_trimStart comment
  rw [bareTokens, split, scanFrom_blanks blank, scanFrom_lineComment]
  exact ⟨_, List.mem_cons_self, rfl⟩

/-- **Tokens with one space between them are the same tokens again**, if none of them is a comment
and every string has its closing quote. -/
theorem scan_joined {source : String}
    (separable : ∀ token ∈ scan source, token.kind ≠ .comment ∧ ¬ token.IsUnclosed) :
    (scan (Source.joined ((scan source).map Token.text))).map
        (fun token => (token.kind, token.text)) =
      (scan source).map fun token => (token.kind, token.text) := by
  have lexemes : ∀ token ∈ (scan source).map bare,
      token.bare = token ∧ IsLexeme token.kind token.text := by
    intro token member
    obtain ⟨placed, scanned, rfl⟩ := List.mem_map.mp member
    obtain ⟨noComment, closed⟩ := separable placed scanned
    have lexeme := isLexeme_of_closed scanned noComment closed
    exact ⟨rfl, lexeme⟩
  have again := bareTokens_joined lexemes
  rw [List.map_map, show text ∘ bare = text from rfl] at again
  have oneLine : '\n' ∉ (Source.joined ((scan source).map Token.text)).toList := by
    refine Source.not_mem_joined (by decide) fun word member => ?_
    obtain ⟨token, scanned, rfl⟩ := List.mem_map.mp member
    exact not_mem_text_of_mem_scan scanned
  -- The joined text is scanned as one line: it has no line end, and starts with no comment.
  have code : ['/', '/'].isPrefixOf
      (Text.trimStart (Source.joined ((scan source).map Token.text)).toList) = false := by
    rw [Bool.eq_false_iff]
    intro comment
    obtain ⟨token, member, isComment⟩ := exists_comment_of_isPrefixOf comment
    rw [again] at member
    obtain ⟨placed, scanned, rfl⟩ := List.mem_map.mp member
    exact (separable placed scanned).1 isComment
  have same := (bare_scan oneLine code).trans again
  have contents := congrArg (List.map fun token => (token.kind, token.text)) same
  rwa [List.map_map, List.map_map] at contents

/-- Tokens side by side on two lines: two operators, a literal and a name, a string with an escape
and two slashes in it, and two slashes that start no comment. -/
theorem scan_joined_dense :
    let source := "q<=~a===4'sb1_xy+\"\\\"//\"/ /$t\n8'h;"
    (∀ token ∈ scan source, token.kind ≠ .comment ∧ ¬ token.IsUnclosed) ∧
      Source.joined ((scan source).map Token.text) =
        "q <= ~ a === 4'sb1_x y + \"\\\"//\" / / $t 8'h ;" ∧
      (scan (Source.joined ((scan source).map Token.text))).map
          (fun token => (token.kind, token.text)) =
        (scan source).map fun token => (token.kind, token.text) := by
  intro source
  have separable : ∀ token ∈ scan source, token.kind ≠ .comment ∧ ¬ token.IsUnclosed := by
    decide +kernel
  exact ⟨separable, by decide +kernel, scan_joined separable⟩

end MiniVerilog.Token
