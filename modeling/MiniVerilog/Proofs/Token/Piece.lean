import Mathlib.Data.List.Find
import MiniVerilog.Proofs.Token.Length

/-! # Tokens before a delimiter

What the reader takes at a place is the same whether a delimiter or the end of the
line comes next (`MiniVerilog.Token.pieceAt_append`), and it is read again from what
was taken (`MiniVerilog.Token.pieceAt_take`). Only comments and strings without an
end of their own run on over delimiters.
-/

namespace MiniVerilog.Token

/-- A word without delimiters does not reach into a delimited text. -/
theorem isPrefixOf_append {word cs after : List Char} (plain : ∀ c ∈ word, c ∉ delimiters)
    (delimited : Delimited after) : word.isPrefixOf (cs ++ after) = word.isPrefixOf cs := by
  induction word generalizing cs with
  | nil => rfl
  | cons c word ih =>
      cases cs with
      | nil =>
          cases after with
          | nil => rfl
          | cons d after =>
              have other : (c == d) = false :=
                beq_eq_false_iff_ne.mpr fun same =>
                  plain c List.mem_cons_self (same ▸ delimited d rfl)
              simp only [List.nil_append, List.isPrefixOf, other, Bool.false_and]
      | cons d cs =>
          simp only [List.cons_append, List.isPrefixOf,
            ih fun c member => plain c (List.mem_cons_of_mem _ member)]

theorem operators_plain : ∀ operator ∈ operators, ∀ c ∈ operator.toList, c ∉ delimiters := by
  have plain : ∀ operator ∈ operators, operator.toList.all (· ∉ delimiters) = true := by decide
  intro operator member
  exact List.all_iff_forall_prop.mp (plain operator member)

/-- What follows a delimiter does not change the operator in front. -/
theorem operatorPiece_append (first : Char) (rest : List Char) {after : List Char}
    (delimited : Delimited after) :
    operatorPiece first (rest ++ after) = operatorPiece first rest := by
  have same :
      operators.find? (fun operator => operator.toList.isPrefixOf (first :: (rest ++ after))) =
        operators.find? fun operator => operator.toList.isPrefixOf (first :: rest) := by
    apply List.find?_congr
    intro operator member
    rw [← List.cons_append]
    exact isPrefixOf_append (operators_plain operator member) delimited
  rw [operatorPiece, operatorPiece, same]

/-- The word that is found in a text is found in its own text. -/
theorem find?_isPrefixOf_take {words : List String} {cs : List Char} {word : String}
    (found : words.find? (fun other => other.toList.isPrefixOf cs) = some word) :
    words.find? (fun other => other.toList.isPrefixOf (cs.take word.length)) = some word := by
  obtain ⟨atFront, before, others, split, none⟩ := List.find?_eq_some_iff_append.mp found
  have own : cs.take word.length = word.toList := by
    rw [← String.length_toList]
    exact (List.prefix_iff_eq_take.mp (List.isPrefixOf_iff_prefix.mp atFront)).symm
  rw [own]
  refine List.find?_eq_some_iff_append.mpr
    ⟨List.isPrefixOf_iff_prefix.mpr List.prefix_rfl, before, others, split, ?_⟩
  intro other member
  have absent := none other member
  rw [Bool.not_eq_true', Bool.eq_false_iff, ne_eq, List.isPrefixOf_iff_prefix] at absent ⊢
  exact fun inside => absent (inside.trans (List.isPrefixOf_iff_prefix.mp atFront))

theorem operators_length : ∀ operator ∈ operators, operator.length - 1 + 1 = operator.length := by
  decide

/-- An operator that is cut out of a text is the same operator, as it is the longest one that
fits. -/
theorem operatorPiece_take (first : Char) (rest : List Char) :
    operatorPiece first (rest.take (operatorPiece first rest).following) =
      operatorPiece first rest := by
  cases found : operators.find? fun operator => operator.toList.isPrefixOf (first :: rest) with
  | some operator =>
      have piece : operatorPiece first rest = ⟨some .operator, operator.length - 1, false⟩ := by
        rw [operatorPiece, found]
      have taken : first :: rest.take (operator.length - 1) =
          (first :: rest).take operator.length := by
        rw [← operators_length operator (List.mem_of_find?_eq_some found), List.take_succ_cons,
          Nat.add_sub_cancel]
      have again := find?_isPrefixOf_take found
      rw [← taken] at again
      rw [piece, operatorPiece, again]
  | none =>
      have piece : (operatorPiece first rest).following = 0 := by rw [operatorPiece, found]
      have alone : operators.find? (fun operator => operator.toList.isPrefixOf [first]) = none := by
        rw [List.find?_eq_none] at found ⊢
        intro operator member atFront
        rw [List.isPrefixOf_iff_prefix] at atFront
        exact found operator member
          (List.isPrefixOf_iff_prefix.mpr (atFront.trans (List.prefix_append [first] rest)))
      rw [piece, List.take_zero, operatorPiece, operatorPiece, found, alone]

/-- An operator takes no more characters than there are. -/
theorem operatorPiece_le (first : Char) (rest : List Char) :
    (operatorPiece first rest).following ≤ rest.length := by
  unfold operatorPiece
  split
  · rename_i operator found
    have atFront := (List.find?_eq_some_iff_append.mp found).1
    have inside := (List.isPrefixOf_iff_prefix.mp atFront).length_le
    rw [String.length_toList, List.length_cons] at inside
    exact Nat.sub_le_of_le_add inside
  · exact Nat.zero_le _

/-- What a character starts. -/
inductive Start where
  | separator | lineComment | blockComment | name | number | based | string | operator

namespace Start

/-- What the first of two characters starts. -/
def of (first : Char) (next : Option Char) : Start :=
  if isSeparator first then separator
  else if first == '/' && next == some '/' then lineComment
  else if first == '/' && next == some '*' then blockComment
  else if isNameStart first || (first == '$' && next.any isNameStart) then name
  else if first.isDigit then number
  else if first == '\'' && next.any isBaseMark then based
  else if first == '"' then string
  else operator

/-- The piece that is started. -/
def piece (first : Char) (rest : List Char) : Start → Piece
  | separator => ⟨none, 0, false⟩
  | lineComment => ⟨some .comment, rest.length, false⟩
  | blockComment =>
    match commentLength? (rest.drop 1) with
    | some length => ⟨some .comment, length + 1, false⟩
    | none => ⟨some .comment, rest.length, true⟩
  | name =>
    ⟨some (nameKind (first :: rest.takeWhile isNameChar)), (rest.takeWhile isNameChar).length,
      false⟩
  | number => ⟨some .number, numberLength rest, false⟩
  | based => ⟨some .number, basedLength rest, false⟩
  | string => ⟨some .string, stringLength rest, false⟩
  | operator => operatorPiece first rest

/-- A token of the kind can start so. -/
def IsStartOf (kind : TokenKind) : Start → Prop
  | separator => False
  | lineComment | blockComment => kind = .comment
  | name => kind = .identifier ∨ ∃ word, kind = .keyword word
  | number | based => kind = .number
  | string => kind = .string
  | operator => kind = .operator

/-- What gives a token of a kind is a start of that kind. -/
theorem isStartOf_of_kind {start : Start} {first : Char} {rest : List Char} {kind : TokenKind}
    (known : (start.piece first rest).kind = some kind) : start.IsStartOf kind := by
  cases start with
  | separator => cases known
  | lineComment | number | based | string => exact (Option.some.inj known).symm
  | blockComment =>
      simp only [piece] at known
      split at known <;> exact (Option.some.inj known).symm
  | name =>
      simp only [piece, nameKind, Option.some_inj] at known
      split at known
      · exact .inr ⟨_, known.symm⟩
      · exact .inl known.symm
  | operator =>
      simp only [piece, operatorPiece] at known
      split at known
      · exact (Option.some.inj known).symm
      · split at known
        · exact (Option.some.inj known).symm
        · cases known

/-- The piece takes what follows with it, whatever that is. -/
def runsOn (rest : List Char) : Start → Bool
  | lineComment => true
  | blockComment => (commentLength? (rest.drop 1)).isNone
  | string => !closesString rest
  | _ => false

/-- Before a delimiter a character starts what it starts at the end of a line. -/
theorem of_delimiter (first : Char) {c : Char} (delimiter : c ∈ delimiters) :
    of first (some c) = of first none := by
  have slash : ∀ c ∈ delimiters, (some c == some '/') = false :=
    List.all_iff_forall_prop.mp (by decide)
  have star : ∀ c ∈ delimiters, (some c == some '*') = false :=
    List.all_iff_forall_prop.mp (by decide)
  unfold of
  simp only [slash c delimiter, star c delimiter, Option.any_some,
    isNameStart_delimiter c delimiter, isBaseMark_delimiter c delimiter, Option.any_none]
  rfl

/-- What follows a delimiter does not change what a character starts. -/
theorem of_append (first : Char) (rest : List Char) {after : List Char}
    (delimited : Delimited after) : of first (rest ++ after).head? = of first rest.head? := by
  cases rest with
  | nil =>
      cases after with
      | nil => rfl
      | cons c after => exact of_delimiter first (delimited c rfl)
  | cons c rest => rfl

/-- **A piece that ends does not change when a delimiter follows.** -/
theorem piece_append {first : Char} {rest after : List Char} {start : Start}
    (ends : start.runsOn rest = false) (delimited : Delimited after) :
    start.piece first (rest ++ after) = start.piece first rest := by
  cases start with
  | separator => rfl
  | lineComment => cases ends
  | blockComment =>
      obtain ⟨length, closed⟩ := Option.isSome_iff_exists.mp (Option.isNone_eq_false_iff.mp ends)
      have drop : (rest ++ after).drop 1 = rest.drop 1 ++ after := by
        cases rest with
        | nil => cases closed
        | cons c rest => rfl
      simp only [piece, drop, commentLength?_append closed, closed]
  | name =>
      simp only [piece, takeWhile_append_of_head? (delimited.head?_any isNameChar_delimiter)]
  | number => rw [piece, numberLength_append rest delimited, piece]
  | based => rw [piece, basedLength_append rest delimited, piece]
  | string => rw [piece, stringLength_append (Bool.not_eq_false' _ ▸ ends), piece]
  | operator => exact operatorPiece_append first rest delimited

end Start

theorem pieceAt_eq (first : Char) (rest : List Char) :
    pieceAt first rest = (Start.of first rest.head?).piece first rest := by
  unfold pieceAt Start.of
  split_ifs <;> rfl

/-- A piece ends where the line ends at the latest. -/
theorem following_pieceAt_le (first : Char) (rest : List Char) :
    (pieceAt first rest).following ≤ rest.length := by
  rw [pieceAt_eq]
  cases Start.of first rest.head? with
  | separator => exact Nat.zero_le _
  | lineComment => exact Nat.le_refl _
  | blockComment =>
      cases closed : commentLength? (rest.drop 1) with
      | none => simp only [Start.piece, closed, Nat.le_refl]
      | some length =>
          have inside := commentLength?_le closed
          rw [List.length_drop] at inside
          simp only [Start.piece, closed]
          cases rest with
          | nil => cases closed
          | cons c rest =>
              rw [List.length_cons] at *
              omega
  | name => exact (List.takeWhile_prefix isNameChar).length_le
  | number => exact numberLength_le rest
  | based => exact basedLength_le rest
  | string => exact stringLength_le rest
  | operator => exact operatorPiece_le first rest

/-- The piece at a place takes what follows with it, whatever that is: it is a line
comment, or a block comment or a string without an end. -/
def runsOn (first : Char) (rest : List Char) : Bool :=
  (Start.of first rest.head?).runsOn rest

/-- **The piece at a place is the same before a delimiter and at the end of a
line**, unless it runs on. -/
theorem pieceAt_append {first : Char} {rest after : List Char}
    (ends : runsOn first rest = false) (delimited : Delimited after) :
    pieceAt first (rest ++ after) = pieceAt first rest := by
  rw [pieceAt_eq, pieceAt_eq, Start.of_append first rest delimited]
  exact Start.piece_append ends delimited

/-- Only comments and strings run on. -/
theorem Start.kind_of_runsOn {start : Start} {before : List Char}
    (runs : start.runsOn before = true) (first : Char) (rest : List Char) :
    (start.piece first rest).kind = some .comment ∨
      (start.piece first rest).kind = some .string := by
  cases start with
  | lineComment => exact .inl rfl
  | blockComment =>
      simp only [piece]
      split <;> exact .inl rfl
  | string => exact .inr rfl
  | _ => cases runs

/-- What is neither a comment nor a string ends by itself. -/
theorem runsOn_eq_false {first : Char} {rest : List Char} {kind : TokenKind}
    (known : (pieceAt first rest).kind = some kind) (noComment : kind ≠ .comment)
    (noString : kind ≠ .string) : runsOn first rest = false := by
  rw [Bool.eq_false_iff]
  intro runs
  have running := Start.kind_of_runsOn runs first rest
  rw [← pieceAt_eq, known, Option.some_inj, Option.some_inj] at running
  exact running.elim noComment noString

/-- What runs on takes the whole line. -/
theorem following_of_runsOn {first : Char} {rest : List Char} (runs : runsOn first rest = true) :
    (pieceAt first rest).following = rest.length := by
  rw [pieceAt_eq]
  unfold runsOn at runs
  generalize Start.of first rest.head? = start at runs
  cases start with
  | lineComment => rfl
  | blockComment => simp only [Start.piece, Option.isNone_iff_eq_none.mp runs]
  | string => exact stringLength_of_not_closesString (Bool.not_eq_true' _ ▸ runs)
  | _ => cases runs

namespace Start

/-- A character starts what it starts at the end of a line, unless the next
character has a part in it. -/
theorem of_none (first next : Char) :
    of first none = of first (some next) ∨ of first (some next) = lineComment ∨
      of first (some next) = blockComment ∨
      (of first (some next) = name ∧ isNameStart next = true) ∨
      (of first (some next) = based ∧ isBaseMark next = true) := by
  unfold of
  split_ifs <;> simp_all

/-- A piece that is cut out of a text starts in the same way: where the second character decides,
the piece takes it along. -/
theorem of_take (first : Char) (rest : List Char) :
    of first (rest.take ((of first rest.head?).piece first rest).following).head? =
      of first rest.head? := by
  cases rest with
  | nil => rw [List.take_nil]
  | cons next rest =>
      rw [List.head?_cons, List.head?_take]
      split
      · rename_i none
        obtain alone | line | block | ⟨name, isStart⟩ | ⟨based, isMark⟩ := of_none first next
        · exact alone
        · rw [line] at none
          exact (Nat.succ_ne_zero _ none).elim
        · rw [block, piece] at none
          split at none <;> exact (Nat.succ_ne_zero _ none).elim
        · rw [name, piece] at none
          rw [List.takeWhile_cons_of_pos (isNameChar_of_isNameStart isStart)] at none
          exact (Nat.succ_ne_zero _ none).elim
        · rw [based] at none
          exact (Nat.ne_of_gt (basedLength_pos isMark rest) none).elim
      · rfl

/-- **A piece that is cut out of a text is the same piece.** -/
theorem piece_take (first : Char) (rest : List Char) (start : Start) :
    start.piece first (rest.take (start.piece first rest).following) = start.piece first rest := by
  cases start with
  | separator => rfl
  | lineComment => simp only [piece, List.take_length]
  | blockComment =>
      cases closed : commentLength? (rest.drop 1) with
      | none => simp only [piece, closed, List.take_length]
      | some length =>
          have drop : (rest.take (length + 1)).drop 1 = (rest.drop 1).take length := by
            rw [List.drop_take, Nat.add_sub_cancel]
          simp only [piece, closed, drop, commentLength?_take closed]
  | name =>
      simp only [piece]
      rw [← List.prefix_iff_eq_take.mp (List.takeWhile_prefix isNameChar), List.takeWhile_idem]
  | number => simp only [piece, numberLength_take]
  | based => simp only [piece, basedLength_take]
  | string => simp only [piece, stringLength_take]
  | operator => exact operatorPiece_take first rest

end Start

/-- **The piece at a place is read again from what it took.** -/
theorem pieceAt_take (first : Char) (rest : List Char) :
    pieceAt first (rest.take (pieceAt first rest).following) = pieceAt first rest := by
  rw [pieceAt_eq first rest, pieceAt_eq, Start.of_take]
  exact Start.piece_take first rest _

/-- No delimiter stands in a token that is no comment and no string. -/
theorem not_mem_delimiters_of_following {first : Char} {rest : List Char}
    (whole : (pieceAt first rest).following = rest.length)
    (noComment : (pieceAt first rest).kind ≠ some .comment)
    (noString : (pieceAt first rest).kind ≠ some .string) : ∀ c ∈ rest, c ∉ delimiters := by
  intro c member delimiter
  obtain ⟨before, after, rfl⟩ := List.append_of_mem member
  have delimited : Delimited (c :: after) := Delimited.cons delimiter after
  have ends : runsOn first before = false := by
    rw [Bool.eq_false_iff]
    intro runs
    have kind := Start.kind_of_runsOn runs first (before ++ c :: after)
    rw [← Start.of_append first before delimited, ← pieceAt_eq] at kind
    exact kind.elim noComment noString
  rw [pieceAt_append ends delimited, List.length_append, List.length_cons] at whole
  have inside := following_pieceAt_le first before
  omega

/-- A delimiter is a piece alone, which is a token if it is a punctuation mark. -/
theorem pieceAt_delimiter {c : Char} (delimiter : c ∈ delimiters) (rest : List Char) :
    pieceAt c rest = ⟨if punctuation.contains c then some .operator else none, 0, false⟩ := by
  have other : ∀ c ∈ delimiters, (c == '/') = false ∧ (c == '$') = false ∧ c.isDigit = false ∧
      (c == '\'') = false ∧ (c == '"') = false :=
    List.all_iff_forall_prop.mp (by decide)
  have separator : ∀ c ∈ delimiters, isSeparator c = true → punctuation.contains c = false :=
    List.all_iff_forall_prop.mp (by decide)
  have none : operators.find? (fun operator => operator.toList.isPrefixOf (c :: rest)) = none := by
    rw [List.find?_eq_none]
    intro operator member atFront
    have head : operator.toList.head? = some c := by
      have nonempty : ∀ operator ∈ operators, operator.toList ≠ [] := by decide
      obtain ⟨others, split⟩ := List.isPrefixOf_iff_prefix.mp atFront
      cases characters : operator.toList with
      | nil => exact (nonempty operator member characters).elim
      | cons d characters' =>
          rw [characters, List.cons_append] at split
          injection split with same
          rw [same, List.head?_cons]
    exact operators_plain operator member c (List.mem_of_head? head) delimiter
  obtain ⟨noSlash, noDollar, noDigit, noTick, noQuote⟩ := other c delimiter
  unfold pieceAt
  rw [noSlash, noDollar, noDigit, noTick, noQuote, isNameStart_delimiter c delimiter]
  simp only [Bool.false_and, Bool.or_false, Bool.false_eq_true, ↓reduceIte, operatorPiece, none]
  split
  · rename_i separates
    rw [separator c delimiter separates]
    rfl
  · rfl

/-- A blank is skipped alone. -/
theorem pieceAt_blank {c : Char} (blank : Text.isBlank c = true) (rest : List Char) :
    pieceAt c rest = ⟨none, 0, false⟩ := by
  have noMark : ∀ c ∈ blanks, punctuation.contains c = false :=
    List.all_iff_forall_prop.mp (by decide)
  have member := mem_blanks blank
  rw [pieceAt_delimiter (List.mem_append_left _ member), noMark c member]
  rfl

end MiniVerilog.Token
