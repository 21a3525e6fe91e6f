import MiniVerilog.Proofs.Source.Text
import MiniVerilog.Proofs.Text.Line
import MiniVerilog.Proofs.Token.Piece

/-! # Texts of tokens

A token without its place is its kind and its text. The text of a token that is no
comment and no string is read as that token again wherever a delimiter follows it
(`MiniVerilog.Token.isLexeme_of_mem_scan`), so tokens that are written with one space
between them are read back (`MiniVerilog.Token.bareTokens_joined`).
-/

namespace MiniVerilog.Token

/-- The token without its place. -/
def bare (token : Token) : Token :=
  { token with line := 0, column := 0 }

@[simp] theorem kind_bare (token : Token) : token.bare.kind = token.kind := rfl

/-- The tokens of a piece of a line, without their places. -/
def bareTokens (cs : List Char) : List Token :=
  (scanFrom 0 0 false cs).1.map bare

/-- The token that starts at a character, without its place. -/
def bareToken? (first : Char) (rest : List Char) : Option Token :=
  (pieceAt first rest).kind.map fun kind =>
    ⟨kind, String.ofList (first :: rest.take (pieceAt first rest).following), 0, 0⟩

/-- A piece that leaves a comment open takes the whole line. -/
theorem eq_of_opensComment {first : Char} {rest : List Char}
    (opens : (pieceAt first rest).opensComment = true) :
    pieceAt first rest = ⟨some .comment, rest.length, true⟩ := by
  rw [pieceAt_eq] at opens ⊢
  generalize Start.of first rest.head? = start at opens ⊢
  cases start with
  | blockComment =>
      simp only [Start.piece] at opens ⊢
      split at opens
      · cases opens
      · rfl
  | operator =>
      simp only [Start.piece, operatorPiece] at opens
      split at opens <;> cases opens
  | _ => cases opens

theorem scanFrom_nil (line column : Nat) (inComment : Bool) :
    scanFrom line column inComment [] = ([], inComment) := by
  rw [scanFrom]

/-- The comment state after a piece matters only when the piece ends the line. -/
theorem bare_scanFrom_cons (line column : Nat) (first : Char) (rest : List Char) :
    (scanFrom line column false (first :: rest)).1.map bare = (bareToken? first rest).toList ++
      (scanFrom line (column + 1 + (pieceAt first rest).following) false
        (rest.drop (pieceAt first rest).following)).1.map bare := by
  have state : (scanFrom line (column + 1 + (pieceAt first rest).following)
        (pieceAt first rest).opensComment (rest.drop (pieceAt first rest).following)).1 =
      (scanFrom line (column + 1 + (pieceAt first rest).following) false
        (rest.drop (pieceAt first rest).following)).1 := by
    cases opens : (pieceAt first rest).opensComment with
    | false => rfl
    | true =>
        rw [eq_of_opensComment opens, List.drop_length, scanFrom_nil, scanFrom_nil]
  rw [scanFrom]
  simp only [Bool.false_eq_true, ↓reduceIte]
  rw [bareToken?, ← state]
  cases (pieceAt first rest).kind <;> rfl

/-- Where a piece stands does not matter for what is read. -/
theorem bare_scanFrom (line column otherLine otherColumn : Nat) (cs : List Char) :
    (scanFrom line column false cs).1.map bare =
      (scanFrom otherLine otherColumn false cs).1.map bare := by
  induction size : cs.length using Nat.strong_induction_on
    generalizing cs column otherColumn with
  | _ bound ih =>
      cases cs with
      | nil => rw [scanFrom_nil, scanFrom_nil]
      | cons first rest =>
          have shorter : (rest.drop (pieceAt first rest).following).length < bound := by
            rw [← size, List.length_drop, List.length_cons]
            omega
          rw [bare_scanFrom_cons, bare_scanFrom_cons, ih _ shorter _ _ _ rfl]

theorem bareTokens_nil : bareTokens [] = [] := by
  rw [bareTokens, scanFrom_nil]
  rfl

/-- **A line is read piece by piece.** -/
theorem bareTokens_cons (first : Char) (rest : List Char) :
    bareTokens (first :: rest) = (bareToken? first rest).toList ++
      bareTokens (rest.drop (pieceAt first rest).following) := by
  rw [bareTokens, bare_scanFrom_cons, bareTokens, bare_scanFrom]

/-- A text that is read as one token of the given kind wherever a delimiter or the
end of the line follows. -/
def IsLexeme (kind : TokenKind) (text : String) : Prop :=
  match text.toList with
  | [] => False
  | first :: rest =>
    pieceAt first rest = ⟨some kind, rest.length, false⟩ ∧ runsOn first rest = false

instance (kind : TokenKind) (text : String) : Decidable (IsLexeme kind text) := by
  unfold IsLexeme
  cases text.toList <;> infer_instance

/-- Every reserved word is a lexeme. So are the punctuation marks and the operators. -/
theorem isLexeme_keyword (keyword : Keyword) : IsLexeme (.keyword keyword) keyword.spelling := by
  cases keyword <;> decide

theorem isLexeme_punctuation : ∀ c ∈ punctuation, IsLexeme .operator (String.singleton c) :=
  List.all_iff_forall_prop.mp (by decide)

theorem isLexeme_operator : ∀ operator ∈ operators, IsLexeme .operator operator := by
  decide

/-- **A lexeme before a delimiter is read as its token.** -/
theorem IsLexeme.bareTokens_append {kind : TokenKind} {text : String}
    (lexeme : IsLexeme kind text) {after : List Char} (delimited : Delimited after) :
    bareTokens (text.toList ++ after) = ⟨kind, text, 0, 0⟩ :: bareTokens after := by
  unfold IsLexeme at lexeme
  cases characters : text.toList with
  | nil =>
      rw [characters] at lexeme
      exact lexeme.elim
  | cons first rest =>
      rw [characters] at lexeme
      obtain ⟨piece, ends⟩ := lexeme
      have whole : pieceAt first (rest ++ after) = ⟨some kind, rest.length, false⟩ := by
        rw [pieceAt_append ends delimited, piece]
      rw [List.cons_append, bareTokens_cons, bareToken?, whole, List.drop_left]
      simp only [Option.map_some, Option.toList_some, List.take_left, List.cons_append,
        List.nil_append, ← characters, String.ofList_toList]

/-- What a piece took is a lexeme, if it ends by itself and opens no comment. -/
theorem isLexeme_of_ends {first : Char} {rest : List Char} {kind : TokenKind}
    (known : (pieceAt first rest).kind = some kind)
    (closed : (pieceAt first rest).opensComment = false)
    (ends : runsOn first (rest.take (pieceAt first rest).following) = false) :
    IsLexeme kind (String.ofList (first :: rest.take (pieceAt first rest).following)) := by
  have length : (rest.take (pieceAt first rest).following).length =
      (pieceAt first rest).following :=
    List.length_take_of_le (following_pieceAt_le first rest)
  unfold IsLexeme
  rw [String.toList_ofList]
  refine ⟨?_, ends⟩
  rw [pieceAt_take first rest, length, ← known, ← closed]

/-- What gives a token that is no comment leaves no comment open. -/
theorem opensComment_of_kind {first : Char} {rest : List Char} {kind : TokenKind}
    (known : (pieceAt first rest).kind = some kind) (noComment : kind ≠ .comment) :
    (pieceAt first rest).opensComment = false := by
  rw [Bool.eq_false_iff]
  intro opens
  rw [eq_of_opensComment opens] at known
  exact noComment (Option.some.inj known).symm

/-- **Whatever is cut out of a line as a token is a lexeme**, unless it is a comment or a string. -/
theorem isLexeme_pieceAt {first : Char} {rest : List Char} {kind : TokenKind}
    (known : (pieceAt first rest).kind = some kind) (noComment : kind ≠ .comment)
    (noString : kind ≠ .string) :
    IsLexeme kind (String.ofList (first :: rest.take (pieceAt first rest).following)) := by
  have again : (pieceAt first (rest.take (pieceAt first rest).following)).kind = some kind := by
    rw [pieceAt_take first rest, known]
  exact isLexeme_of_ends known (opensComment_of_kind known noComment)
    (runsOn_eq_false again noComment noString)

/-- A token that is no comment is the piece at some place outside comments. -/
theorem exists_pieceAt_of_mem_scanFrom {line column : Nat} {inComment : Bool} {cs : List Char}
    {token : Token} (member : token ∈ (scanFrom line column inComment cs).1)
    (noComment : token.kind ≠ .comment) :
    ∃ first rest, (pieceAt first rest).kind = some token.kind ∧
      token.text = String.ofList (first :: rest.take (pieceAt first rest).following) := by
  fun_induction scanFrom line column inComment cs with
  | case1 => cases member
  | case2 column inComment first rest piece tokens stillOpen following kind known ih =>
      rw [following] at ih
      obtain rfl | later := List.mem_cons.mp member
      · cases inComment with
        | true =>
            exfalso
            have comment : piece.kind = some .comment ∨ piece.kind = none := by
              change (commentPiece first rest).kind = _ ∨ (commentPiece first rest).kind = _
              unfold commentPiece
              split
              · exact .inl rfl
              · simp only
                split
                · exact .inr rfl
                · exact .inl rfl
            rw [known] at comment
            obtain comment | comment := comment
            · exact noComment (Option.some.inj comment)
            · cases comment
        | false => exact ⟨first, rest, known, rfl⟩
      · exact ih later
  | case3 column inComment first rest piece tokens stillOpen following known ih =>
      rw [following] at ih
      exact ih member

/-- Every token but a comment was cut out of a line as a piece. -/
theorem exists_pieceAt_of_mem_scan {source : String} {token : Token} (member : token ∈ scan source)
    (noComment : token.kind ≠ .comment) :
    ∃ first rest, (pieceAt first rest).kind = some token.kind ∧
      token.text = String.ofList (first :: rest.take (pieceAt first rest).following) := by
  unfold scan at member
  generalize 1 = line, false = inComment, Text.lines source.toList = lines at member
  induction lines generalizing line inComment with
  | nil => cases member
  | cons cs following ih =>
      change token ∈ (scanLine line inComment cs).1 ++
        scanLines (line + 1) (scanLine line inComment cs).2 following at member
      obtain here | later := List.mem_append.mp member
      · unfold scanLine at here
        simp only at here
        split at here
        · cases List.mem_singleton.mp here
          exact (noComment rfl).elim
        · exact exists_pieceAt_of_mem_scanFrom here noComment
      · exact ih _ _ later

/-- **A token of a source text, other than a comment or a string, is a lexeme.** -/
theorem isLexeme_of_mem_scan {source : String} {token : Token} (member : token ∈ scan source)
    (noComment : token.kind ≠ .comment) (noString : token.kind ≠ .string) :
    IsLexeme token.kind token.text := by
  obtain ⟨first, rest, known, text⟩ := exists_pieceAt_of_mem_scan member noComment
  rw [text]
  exact isLexeme_pieceAt known noComment noString

/-- A lexeme other than a comment or a string has no blanks. -/
theorem IsLexeme.not_isBlank {kind : TokenKind} {text : String} (lexeme : IsLexeme kind text)
    (noComment : kind ≠ .comment) (noString : kind ≠ .string) :
    ∀ c ∈ text.toList, Text.isBlank c = false := by
  intro c member
  unfold IsLexeme at lexeme
  cases characters : text.toList with
  | nil => rw [characters] at lexeme; exact lexeme.elim
  | cons first rest =>
      rw [characters] at lexeme member
      obtain ⟨piece, -⟩ := lexeme
      rw [Bool.eq_false_iff]
      intro blank
      have delimiter : c ∈ delimiters := List.mem_append_left _ (mem_blanks blank)
      obtain rfl | later := List.mem_cons.mp member
      · have alone := pieceAt_blank blank rest
        rw [piece] at alone
        cases congrArg Piece.kind alone
      · refine not_mem_delimiters_of_following (congrArg Piece.following piece) ?_ ?_ c later
          delimiter
        · rw [piece]
          exact fun same => noComment (Option.some.inj same)
        · rw [piece]
          exact fun same => noString (Option.some.inj same)

/-- A lexeme has no blanks around it. -/
theorem IsLexeme.trim_eq_self {kind : TokenKind} {text : String} (lexeme : IsLexeme kind text)
    (noComment : kind ≠ .comment) (noString : kind ≠ .string) :
    Text.trim text.toList = text.toList := by
  have visible := lexeme.not_isBlank noComment noString
  exact Text.trim_eq_self (fun c first => visible c (List.mem_of_head? first))
    fun c last => visible c (List.mem_of_getLast? last)

/-- A lexeme is a word of an expression text. -/
theorem IsLexeme.isWord {kind : TokenKind} {text : String} (lexeme : IsLexeme kind text)
    (noComment : kind ≠ .comment) (noString : kind ≠ .string) : Source.IsWord text := by
  refine ⟨?_, lexeme.not_isBlank noComment noString⟩
  rintro rfl
  exact lexeme.elim

/-- The name of an identifier is a word. -/
theorem isWord_of_mem_scan {source : String} {token : Token} (scanned : token ∈ scan source)
    (identifier : token.isIdentifier = true) : Source.IsWord token.text := by
  have kind : token.kind = .identifier := beq_iff_eq.mp identifier
  have noComment : token.kind ≠ .comment := by
    rw [kind]
    decide
  have noString : token.kind ≠ .string := by
    rw [kind]
    decide
  exact (isLexeme_of_mem_scan scanned noComment noString).isWord noComment noString

/-- Delimiters that are blanks are skipped. -/
theorem bareTokens_cons_of_isBlank {c : Char} (blank : Text.isBlank c = true) (cs : List Char) :
    bareTokens (c :: cs) = bareTokens cs := by
  rw [bareTokens_cons, bareToken?, pieceAt_blank blank]
  rfl

/-- **Lexemes with one space between them are read back.** -/
theorem bareTokens_joined {tokens : List Token}
    (lexemes : ∀ token ∈ tokens, token.bare = token ∧ IsLexeme token.kind token.text) :
    bareTokens (Source.joined (tokens.map Token.text)).toList = tokens := by
  induction tokens with
  | nil => exact bareTokens_nil
  | cons token tokens ih =>
      obtain ⟨bare, lexeme⟩ := lexemes token List.mem_cons_self
      have others := ih fun other member => lexemes other (List.mem_cons_of_mem _ member)
      cases tokens with
      | nil =>
          have alone := lexeme.bareTokens_append Delimited.nil
          rw [List.append_nil, bareTokens_nil] at alone
          rw [List.map_cons, List.map_nil, Source.joined, String.intercalate_singleton, alone]
          exact congrArg (· :: []) bare
      | cons next tokens =>
          rw [List.map_cons, List.map_cons, Source.joined_cons_cons,
            lexeme.bareTokens_append (Delimited.cons (by decide) _),
            bareTokens_cons_of_isBlank (by decide), ← List.map_cons, others]
          exact congrArg (· :: next :: tokens) bare

/-- A text of one line that starts with no comment is read from its first character
to its last. -/
theorem bare_scan {text : String} (oneLine : '\n' ∉ text.toList)
    (noComment : ['/', '/'].isPrefixOf (Text.trimStart text.toList) = false) :
    (scan text).map bare = bareTokens text.toList := by
  unfold scan
  by_cases empty : text.toList = []
  · rw [empty, bareTokens_nil]
    rfl
  · have line : scanLine 1 false text.toList = scanFrom 1 1 false text.toList := by
      simp only [scanLine, noComment, Bool.and_false, Bool.false_eq_true, ↓reduceIte]
    rw [Text.lines_of_not_mem empty oneLine]
    change ((scanLine 1 false text.toList).1 ++ []).map bare = _
    rw [line, List.append_nil]
    exact bare_scanFrom 1 1 0 0 text.toList

end MiniVerilog.Token
