import MiniVerilog.Proofs.Token.Piece

/-! # Characters of code

A comment starts at a slash and a string at a quote. Names, numbers and operators have neither,
but for the slash that is an operator alone (`MiniVerilog.Token.Start.isPlain_piece`).
-/

namespace MiniVerilog.Token

/-- A character at which neither a comment nor a string can start. -/
def isPlain (c : Char) : Bool :=
  c != '/' && c != '"'

theorem isPlain_eq_true {c : Char} : isPlain c = true ↔ c ≠ '/' ∧ c ≠ '"' := by
  rw [isPlain, Bool.and_eq_true, bne_iff_ne, bne_iff_ne]

/-- A property that neither a slash nor a quote has is one of plain characters. -/
theorem isPlain_of_property (property : Char → Bool) (slash : property '/' = false)
    (quote : property '"' = false) {c : Char} (holds : property c = true) : isPlain c = true := by
  rw [isPlain_eq_true]
  constructor <;> rintro rfl
  · exact Bool.false_ne_true (slash.symm.trans holds)
  · exact Bool.false_ne_true (quote.symm.trans holds)

theorem isPlain_of_mem_takeWhile {property : Char → Bool} (slash : property '/' = false)
    (quote : property '"' = false) (cs : List Char) :
    ∀ c ∈ cs.takeWhile property, isPlain c = true :=
  fun _ taken => isPlain_of_property property slash quote (List.mem_takeWhile_imp taken)

/-- A base letter with its digits is plain. -/
theorem isPlain_of_letterLength (cs : List Char) :
    ∀ c ∈ cs.take (letterLength cs), isPlain c = true := by
  cases cs with
  | nil => exact List.forall_mem_nil _
  | cons letter digits =>
      cases known : Radix.ofLetter? letter with
      | none =>
          simp only [letterLength, known, List.take_zero]
          exact List.forall_mem_nil _
      | some radix =>
          simp only [letterLength, known, Nat.add_comm 1, List.take_succ_cons]
          rw [← List.prefix_iff_eq_take.mp (List.takeWhile_prefix radix.admits)]
          refine List.forall_mem_cons.mpr ⟨?_, ?_⟩
          · have isLetter : (Radix.ofLetter? letter).isSome = true := by rw [known]; rfl
            exact isPlain_of_property (fun c => (Radix.ofLetter? c).isSome) rfl rfl isLetter
          · cases radix <;> exact isPlain_of_mem_takeWhile rfl rfl digits

/-- The part after a tick is plain. -/
theorem isPlain_of_basedLength (cs : List Char) :
    ∀ c ∈ cs.take (basedLength cs), isPlain c = true := by
  by_cases unsigned : cs.head?.any isSignMark = false
  · rw [basedLength_of_not_isSignMark unsigned]
    exact isPlain_of_letterLength cs
  · cases cs with
    | nil => exact (unsigned rfl).elim
    | cons c cs =>
        have sign : isSignMark c = true := Bool.of_not_eq_false unsigned
        rw [basedLength_cons_of_isSignMark sign, Nat.add_comm 1, List.take_succ_cons]
        exact List.forall_mem_cons.mpr
          ⟨isPlain_of_property isSignMark rfl rfl sign, isPlain_of_letterLength cs⟩

/-- The part from the tick on is plain. -/
theorem isPlain_of_tickLength (cs : List Char) :
    ∀ c ∈ cs.take (tickLength cs), isPlain c = true := by
  cases cs with
  | nil => exact List.forall_mem_nil _
  | cons tick rest =>
      rw [tickLength]
      split
      · rename_i marked
        have isTick : tick = '\'' := beq_iff_eq.mp ((Bool.and_eq_true _ _).mp marked).1
        rw [Nat.add_comm, List.take_succ_cons, isTick]
        exact List.forall_mem_cons.mpr ⟨by decide, isPlain_of_basedLength rest⟩
      · exact List.forall_mem_nil _

/-- A number is plain. -/
theorem isPlain_of_numberLength (cs : List Char) :
    ∀ c ∈ cs.take (numberLength cs), isPlain c = true := by
  rw [take_numberLength]
  exact List.forall_mem_append.mpr
    ⟨isPlain_of_mem_takeWhile rfl rfl cs, isPlain_of_tickLength _⟩

/-- An operator that starts with a plain character is plain: no longer operator has a slash or a
quote in it. -/
theorem isPlain_of_operatorPiece {first : Char} {rest : List Char} (plain : isPlain first = true) :
    ∀ c ∈ first :: rest.take (operatorPiece first rest).following, isPlain c = true := by
  have operatorsPlain : ∀ operator ∈ operators,
      operator.toList.all isPlain = true ∨ operator.toList.head? = some '/' := by decide
  unfold operatorPiece
  split
  · rename_i operator found
    have member := List.mem_of_find?_eq_some found
    have atFront := (List.find?_eq_some_iff_append.mp found).1
    have own : first :: rest.take (operator.length - 1) = operator.toList := by
      rw [← List.take_succ_cons, operators_length operator member, ← String.length_toList]
      exact (List.prefix_iff_eq_take.mp (List.isPrefixOf_iff_prefix.mp atFront)).symm
    rw [own]
    rcases operatorsPlain operator member with all | slash
    · exact List.all_eq_true.mp all
    · rw [← own] at slash
      obtain rfl : first = '/' := Option.some.inj slash
      cases plain
  · exact List.forall_mem_singleton.mpr plain

namespace Start

/-- A slash starts a comment or an operator, as the next character says. -/
theorem of_slash (next : Option Char) :
    of '/' next = if next = some '/' then lineComment
      else if next = some '*' then blockComment else operator := by
  have separator : isSeparator '/' = false := by decide
  have noName : isNameStart '/' = false := by decide
  have noDigit : '/'.isDigit = false := by decide
  simp [of, separator, noName, noDigit]

/-- Only at a slash a comment starts. -/
theorem eq_slash {first : Char} {next : Option Char}
    (comment : of first next = lineComment ∨ of first next = blockComment) : first = '/' := by
  by_contra other
  rw [of, beq_eq_false_iff_ne.mpr other] at comment
  simp only [Bool.false_and, Bool.false_eq_true, ↓reduceIte] at comment
  split_ifs at comment <;> rcases comment with line | block <;> contradiction

theorem of_quote (next : Option Char) : of '"' next = string :=
  rfl

/-- A line comment starts with two slashes. -/
theorem eq_of_lineComment {first : Char} {rest : List Char}
    (starts : of first rest.head? = lineComment) : first = '/' ∧ ∃ text, rest = '/' :: text := by
  obtain rfl := eq_slash (.inl starts)
  rw [of_slash] at starts
  split_ifs at starts with slash
  exact ⟨rfl, List.head?_eq_some_iff.mp slash⟩

/-- A block comment starts with a slash and a star. -/
theorem eq_of_blockComment {first : Char} {rest : List Char}
    (starts : of first rest.head? = blockComment) : first = '/' ∧ ∃ text, rest = '*' :: text := by
  obtain rfl := eq_slash (.inr starts)
  rw [of_slash] at starts
  split_ifs at starts with _ star
  exact ⟨rfl, List.head?_eq_some_iff.mp star⟩

/-- Only at a quote a string starts. -/
theorem eq_quote {first : Char} {next : Option Char} (starts : of first next = string) :
    first = '"' := by
  unfold of at starts
  split_ifs at starts with _ _ _ _ _ _ quote
  exact beq_iff_eq.mp quote

/-- A piece of code: no comment and no string. -/
def isCode : Start → Bool
  | lineComment | blockComment | string => false
  | _ => true

/-- A piece of code leaves no comment open. -/
theorem opensComment_of_isCode {start : Start} (code : start.isCode = true) (first : Char)
    (rest : List Char) : (start.piece first rest).opensComment = false := by
  cases start with
  | operator =>
      simp only [piece, operatorPiece]
      split <;> rfl
  | lineComment | blockComment | string => cases code
  | _ => rfl

/-- Only the slash alone is code with a slash, and no code has a quote. -/
theorem isPlain_piece {first : Char} {rest : List Char} {start : Start}
    (starts : of first rest.head? = start) (noSlash : first ≠ '/') (code : start.isCode = true) :
    ∀ c ∈ first :: rest.take (start.piece first rest).following, isPlain c = true := by
  have noQuote : first ≠ '"' := by
    rintro rfl
    rw [← starts, of_quote] at code
    cases code
  have plain : isPlain first = true := isPlain_eq_true.mpr ⟨noSlash, noQuote⟩
  cases start with
  | operator => exact isPlain_of_operatorPiece plain
  | separator => exact List.forall_mem_singleton.mpr plain
  | lineComment | blockComment | string => cases code
  | name =>
      refine List.forall_mem_cons.mpr ⟨plain, ?_⟩
      simp only [piece]
      rw [← List.prefix_iff_eq_take.mp (List.takeWhile_prefix isNameChar)]
      exact isPlain_of_mem_takeWhile rfl rfl rest
  | number => exact List.forall_mem_cons.mpr ⟨plain, isPlain_of_numberLength rest⟩
  | based => exact List.forall_mem_cons.mpr ⟨plain, isPlain_of_basedLength rest⟩

/-- What starts no comment is no comment token. -/
theorem kind_ne_comment {start : Start} (noLine : start ≠ lineComment)
    (noBlock : start ≠ blockComment) (first : Char) (rest : List Char) :
    (start.piece first rest).kind ≠ some .comment := by
  intro comment
  have isStart := isStartOf_of_kind comment
  cases start with
  | lineComment => exact noLine rfl
  | blockComment => exact noBlock rfl
  | name => rcases isStart with same | ⟨word, same⟩ <;> cases same
  | separator | number | based | string | operator => cases isStart

end Start

end MiniVerilog.Token
