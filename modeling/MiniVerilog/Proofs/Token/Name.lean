import MiniVerilog.Proofs.Number.Decimal
import MiniVerilog.Proofs.Token.Written

/-! # Names and numbers as parts of a line

A name and a number in decimal are read as one token each (`MiniVerilog.Token.IsName.isSolid`,
`MiniVerilog.Token.isSolid_number`), so they can be parts of a line that is written.
-/

namespace MiniVerilog.Token

/-- A text of letters, digits, underscores and dollar signs that starts with a letter or an
underscore and is no reserved word. -/
structure IsName (name : String) : Prop where
  start : name.toList.head?.any isNameStart = true
  characters : ∀ c ∈ name.toList, isNameChar c = true
  unreserved : Keyword.ofSpelling? name = none

instance (name : String) : Decidable (IsName name) :=
  decidable_of_iff (name.toList.head?.any isNameStart = true ∧
      name.toList.all isNameChar = true ∧ Keyword.ofSpelling? name = none)
    ⟨fun ⟨start, characters, unreserved⟩ => ⟨start, List.all_eq_true.mp characters, unreserved⟩,
      fun isName => ⟨isName.start, List.all_eq_true.mpr isName.characters, isName.unreserved⟩⟩

/-- A name is no reserved word. -/
theorem IsName.ne_spelling {name : String} (isName : IsName name) (keyword : Keyword) :
    name ≠ keyword.spelling := by
  have listed : keyword ∈ Keyword.all := by cases keyword <;> decide
  intro same
  have other := List.find?_eq_none.mp isName.unreserved keyword listed
  rw [decide_eq_true_eq] at other
  exact other same.symm

/-- The characters at which a name starts: a letter or an underscore, with a dollar sign before it
in a system name. -/
def startsName (first : Char) (rest : List Char) : Bool :=
  isNameStart first || (first == '$' && rest.head?.any isNameStart)

/-- **A name is one piece**, as long as its characters go on. -/
theorem pieceAt_name {first : Char} {rest : List Char} (starts : startsName first rest = true) :
    pieceAt first rest = ⟨some (nameKind (first :: rest.takeWhile isNameChar)),
      (rest.takeWhile isNameChar).length, false⟩ := by
  have kinds : isNameStart first = true ∨ first = '$' := by
    rw [startsName, Bool.or_eq_true, Bool.and_eq_true, beq_iff_eq] at starts
    exact starts.imp_right And.left
  have noSeparator : isSeparator first = false := by
    rw [Bool.eq_false_iff]
    intro separator
    simp only [isSeparator, Bool.or_eq_true, beq_iff_eq] at separator
    rcases separator with (((rfl | rfl) | rfl) | rfl) | rfl <;> exact absurd kinds (by decide)
  have noSlash : (first == '/') = false := by
    rw [beq_eq_false_iff_ne]
    rintro rfl
    exact absurd kinds (by decide)
  rw [startsName] at starts
  rw [pieceAt, noSeparator, noSlash, starts]
  rfl

/-- **A name is one lexeme.** -/
theorem isLexeme_name {name : String} {first : Char} {rest : List Char}
    (letters : name.toList = first :: rest) (starts : startsName first rest = true)
    (characters : ∀ c ∈ rest, isNameChar c = true) (unreserved : Keyword.ofSpelling? name = none) :
    IsLexeme .identifier name := by
  have all : rest.takeWhile isNameChar = rest := List.takeWhile_eq_self_iff.mpr characters
  have kind : nameKind (first :: rest) = .identifier := by
    rw [nameKind, ← letters, String.ofList_toList, unreserved]
  have piece := pieceAt_name starts
  rw [all, kind] at piece
  rw [IsLexeme, letters]
  exact ⟨piece, runsOn_eq_false (congrArg Piece.kind piece) TokenKind.noConfusion
    TokenKind.noConfusion⟩

/-- An identifier has the characters of a name. -/
theorem IsLexeme.exists_name {name : String} (lexeme : IsLexeme .identifier name) :
    ∃ first rest, name.toList = first :: rest ∧ startsName first rest = true ∧
      (∀ c ∈ rest, isNameChar c = true) ∧ Keyword.ofSpelling? name = none := by
  unfold IsLexeme at lexeme
  cases letters : name.toList with
  | nil =>
      rw [letters] at lexeme
      exact lexeme.elim
  | cons first rest =>
      rw [letters] at lexeme
      obtain ⟨piece, -⟩ := lexeme
      have starts : startsName first rest = true := by
        rw [pieceAt_eq] at piece
        have isStart := Start.isStartOf_of_kind (congrArg Piece.kind piece)
        cases start : Start.of first rest.head? with
        | name =>
            unfold Start.of at start
            split_ifs at start
            assumption
        | _ =>
            rw [start] at isStart
            cases isStart
      rw [pieceAt_name starts] at piece
      have all : rest.takeWhile isNameChar = rest :=
        (List.takeWhile_prefix isNameChar).eq_of_length (congrArg Piece.following piece)
      have kind : nameKind (first :: rest) = .identifier := by
        rw [all] at piece
        exact Option.some.inj (congrArg Piece.kind piece)
      refine ⟨first, rest, rfl, starts, List.takeWhile_eq_self_iff.mp all, ?_⟩
      rw [nameKind, ← letters, String.ofList_toList] at kind
      split at kind
      · cases kind
      · assumption

/-- **An identifier is read as itself.** -/
theorem IsLexeme.isSolid_identifier {name : String} (lexeme : IsLexeme .identifier name) :
    IsSolid .identifier name := by
  refine ⟨lexeme, by decide, fun slash => ?_⟩
  obtain ⟨first, rest, letters, starts, characters, -⟩ := lexeme.exists_name
  rw [letters] at slash
  rcases List.mem_cons.mp slash with rfl | later
  · cases starts
  · exact absurd (characters '/' later) (by decide)

/-- A name is one token before a delimiter, and starts no comment. -/
theorem IsName.isSolid {name : String} (isName : IsName name) : IsSolid .identifier name := by
  obtain ⟨start, characters, unreserved⟩ := isName
  cases letters : name.toList with
  | nil =>
      rw [letters] at start
      cases start
  | cons first rest =>
      rw [letters] at start characters
      have starts : startsName first rest = true := by
        rw [startsName, show isNameStart first = true from start, Bool.true_or]
      exact (isLexeme_name letters starts (List.forall_mem_cons.mp characters).2
        unreserved).isSolid_identifier

/-- A name goes on with the characters of names, unless that makes it a reserved word. -/
theorem IsLexeme.append {name : String} (lexeme : IsLexeme .identifier name) {ending : String}
    (characters : ∀ c ∈ ending.toList, isNameChar c = true)
    (unreserved : Keyword.ofSpelling? (name ++ ending) = none) :
    IsLexeme .identifier (name ++ ending) := by
  obtain ⟨first, rest, letters, starts, inName, -⟩ := lexeme.exists_name
  have longer : (name ++ ending).toList = first :: (rest ++ ending.toList) := by
    rw [String.toList_append, letters, List.cons_append]
  refine isLexeme_name longer ?_ (List.forall_mem_append.mpr ⟨inName, characters⟩) unreserved
  cases rest with
  | nil =>
      rw [startsName, List.head?_nil, Option.any_none, Bool.and_false, Bool.or_false] at starts
      rw [startsName, starts, Bool.true_or]
  | cons next rest => exact starts

/-- A digit starts a number. -/
theorem pieceAt_digit {first : Char} (digit : first ∈ decimalDigits) (rest : List Char) :
    pieceAt first rest = ⟨some .number, numberLength rest, false⟩ := by
  have plain : ∀ c ∈ decimalDigits, isSeparator c = false ∧ (c == '/') = false ∧
      isNameStart c = false ∧ (c == '$') = false ∧ c.isDigit = true :=
    List.all_iff_forall_prop.mp (by decide)
  obtain ⟨noSeparator, noSlash, noName, noDollar, isDigit⟩ := plain first digit
  rw [pieceAt, noSeparator, noSlash, noName, noDollar, isDigit]
  rfl

/-- **A number in decimal is read as itself.** -/
theorem isSolid_number (number : Nat) : IsSolid .number (toString number) := by
  have digits : ∀ c ∈ (toString number).toList, c ∈ decimalDigits :=
    fun c => mem_decimalDigits_of_mem
  have noSlash : '/' ∉ (toString number).toList := fun slash => absurd (digits _ slash) (by decide)
  refine ⟨?_, by decide, noSlash⟩
  rw [IsLexeme]
  cases characters : (toString number).toList with
  | nil =>
      rw [Nat.toString_eq_repr, Nat.toList_repr] at characters
      exact Nat.toDigits_ne_nil characters
  | cons first rest =>
      rw [characters] at digits
      obtain ⟨firstDigit, others⟩ := List.forall_mem_cons.mp digits
      have isDigit : ∀ c ∈ decimalDigits, (c.isDigit || c == '_') = true :=
        List.all_iff_forall_prop.mp (by decide)
      have all : rest.takeWhile (fun c => c.isDigit || c == '_') = rest :=
        List.takeWhile_eq_self_iff.mpr fun c member => isDigit c (others c member)
      have length : numberLength rest = rest.length := by
        simp only [numberLength, all, List.drop_length]
      have piece := pieceAt_digit firstDigit rest
      rw [length] at piece
      exact ⟨piece, runsOn_eq_false (congrArg Piece.kind piece) TokenKind.noConfusion
        TokenKind.noConfusion⟩

end MiniVerilog.Token
