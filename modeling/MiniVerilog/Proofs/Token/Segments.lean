import MiniVerilog.Proofs.Token.Continued

/-! # Lines are cut into tokens

The tokens of a line are slices of it, one after another, and only characters that start no
token stand between them (`MiniVerilog.Token.scanLine_segmented`). Line after line, nothing of a
source text is lost but such characters (`MiniVerilog.Token.scan_segments`).
-/

namespace MiniVerilog.Token

/-- A control character of ASCII. -/
def isControl (c : Char) : Bool :=
  c.toNat < 0x20 || c.toNat == 0x7F

/-- A character that may stand outside tokens: a blank, a control character, a character
outside ASCII, or one of the backslash, the backquote, the dollar sign and the tick. -/
def isPassedOver (c : Char) : Bool :=
  Text.isBlank c || isControl c || 0x7F < c.toNat || ['\\', '\x60', '$', '\''].contains c

/-- A letter, a digit, an underscore, a quote, or a character of an operator or a punctuation
mark. -/
def isSignificant (c : Char) : Bool :=
  c.isAlphanum || c == '_' || c == '"' || punctuation.contains c ||
    operators.any fun operator => operator.toList.contains c

/-- Significant characters are ASCII. -/
theorem toNat_le_of_isSignificant {c : Char} (significant : isSignificant c = true) :
    c.toNat ≤ 0x7F := by
  have marks : ∀ c ∈ punctuation, c.toNat ≤ 0x7F := List.all_iff_forall_prop.mp (by decide)
  have signs : ∀ operator ∈ operators, operator.toList.all (·.toNat ≤ 0x7F) = true := by decide
  simp only [isSignificant, Bool.or_eq_true, beq_iff_eq, List.contains_iff_mem, List.any_eq_true]
    at significant
  rcases significant with (((plain | rfl) | rfl) | mark) | ⟨operator, member, inside⟩
  · change ((decide ('A'.val ≤ c.val ∧ c.val ≤ 'Z'.val) ||
      ('a'.val ≤ c.val && c.val ≤ 'z'.val)) || ('0'.val ≤ c.val && c.val ≤ '9'.val)) = true at plain
    simp only [Bool.or_eq_true, Bool.and_eq_true, decide_eq_true_eq,
      UInt32.le_iff_toNat_le] at plain
    change ((65 ≤ c.toNat ∧ c.toNat ≤ 90) ∨ 97 ≤ c.toNat ∧ c.toNat ≤ 122) ∨
      48 ≤ c.toNat ∧ c.toNat ≤ 57 at plain
    omega
  · decide
  · decide
  · exact marks c mark
  · exact of_decide_eq_true (List.all_eq_true.mp (signs operator member) c inside)

/-- Among the ASCII characters the significant ones are those that are not passed over. -/
theorem isSignificant_eq_not {c : Char} (ascii : c.toNat ≤ 0x7F) :
    isSignificant c = !isPassedOver c := by
  have all : ∀ code ≤ 0x7F, isSignificant (Char.ofNat code) = !isPassedOver (Char.ofNat code) := by
    decide +kernel
  have known := all c.toNat ascii
  rwa [Char.ofNat_toNat] at known

/-- Every character of an operator is an operator alone. -/
theorem singleton_mem_operators :
    ∀ operator ∈ operators, ∀ c ∈ operator.toList, String.singleton c ∈ operators := by
  have all : ∀ operator ∈ operators,
      operator.toList.all (String.singleton · ∈ operators) = true := by decide
  exact fun operator member => List.all_iff_forall_prop.mp (all operator member)

/-- A character that is not passed over starts a name, a number, a string or an operator. -/
theorem isSignificant_of_not_isPassedOver {c : Char} (kept : isPassedOver c = false) :
    isSignificant c = true := by
  have ascii : c.toNat ≤ 0x7F := by
    simp only [isPassedOver, Bool.or_eq_false_iff, decide_eq_false_iff_not] at kept
    exact Nat.le_of_not_lt kept.1.2
  rw [isSignificant_eq_not ascii, kept]
  rfl

theorem isPassedOver_of_isSeparator {c : Char} (separator : isSeparator c = true) :
    isPassedOver c = true := by
  simp only [isSeparator, Bool.or_eq_true, beq_iff_eq] at separator
  rcases separator with (((rfl | rfl) | rfl) | rfl) | rfl <;> decide

namespace Start

/-- Only a blank, or what might have been an operator, gives no token. -/
theorem eq_of_kind_eq_none {start : Start} {first : Char} {rest : List Char}
    (skipped : (start.piece first rest).kind = none) : start = separator ∨ start = operator := by
  cases start with
  | separator => exact .inl rfl
  | operator => exact .inr rfl
  | blockComment =>
      simp only [piece] at skipped
      split at skipped <;> cases skipped
  | _ => cases skipped

/-- What starts no piece is a blank between tokens. -/
theorem isSeparator_of {first : Char} {next : Option Char} (starts : of first next = separator) :
    isSeparator first = true := by
  unfold of at starts
  split_ifs at starts
  assumption

/-- What starts an operator starts no name, no number and no string. -/
theorem of_eq_operator {first : Char} {next : Option Char} (starts : of first next = operator) :
    isNameStart first = false ∧ first.isDigit = false ∧ (first == '"') = false := by
  unfold of at starts
  split_ifs at starts with _ _ _ noName noDigit _ noQuote
  rw [Bool.or_eq_true, not_or] at noName
  exact ⟨Bool.eq_false_iff.mpr noName.1, Bool.eq_false_iff.mpr noDigit,
    Bool.eq_false_iff.mpr noQuote⟩

end Start

/-- No operator and no punctuation mark starts at a character that is skipped. -/
theorem not_significant_of_operatorPiece {first : Char} {rest : List Char}
    (skipped : (operatorPiece first rest).kind = none) :
    punctuation.contains first = false ∧
      (operators.any fun operator => operator.toList.contains first) = false ∧
      (operatorPiece first rest).following = 0 := by
  unfold operatorPiece at skipped ⊢
  split at skipped
  · cases skipped
  · rename_i absent
    refine ⟨?_, ?_, rfl⟩
    · rw [Bool.eq_false_iff]
      intro isMark
      rw [isMark] at skipped
      cases skipped
    · rw [List.any_eq_false]
      intro operator member inside
      have alone := singleton_mem_operators operator member first (List.contains_iff_mem.mp inside)
      refine List.find?_eq_none.mp absent _ alone ?_
      rw [List.isPrefixOf_iff_prefix, String.toList_singleton]
      exact List.prefix_append [first] rest

/-- **A character at which no token starts is passed over**, and it is alone. -/
theorem isPassedOver_of_kind_eq_none {first : Char} {rest : List Char}
    (skipped : (pieceAt first rest).kind = none) :
    isPassedOver first = true ∧ (pieceAt first rest).following = 0 := by
  rw [pieceAt_eq] at skipped ⊢
  rcases Start.eq_of_kind_eq_none skipped with separator | operator
  · rw [separator]
    exact ⟨isPassedOver_of_isSeparator (Start.isSeparator_of separator), rfl⟩
  · obtain ⟨noName, noDigit, noQuote⟩ := Start.of_eq_operator operator
    rw [operator] at skipped ⊢
    obtain ⟨noMark, noOperator, alone⟩ := not_significant_of_operatorPiece skipped
    refine ⟨?_, alone⟩
    rw [← Bool.not_eq_false]
    intro kept
    have significant := isSignificant_of_not_isPassedOver kept
    rw [isNameStart, Bool.or_eq_false_iff] at noName
    rw [isSignificant, Char.isAlphanum, noName.1, noDigit, noName.2, noQuote, noMark,
      noOperator] at significant
    exact absurd significant (by decide)

/-- What a piece inside a block comment skips is blank. -/
theorem isPassedOver_of_commentPiece {first : Char} {rest : List Char}
    (skipped : (commentPiece first rest).kind = none) :
    ∀ c ∈ first :: rest, isPassedOver c = true := by
  unfold commentPiece at skipped
  split at skipped
  · cases skipped
  · simp only at skipped
    split at skipped
    · rename_i blank
      intro c member
      rw [isPassedOver, List.all_eq_true.mp blank c member]
      rfl
    · cases skipped

/-- What the piece at the front of a line skips is passed over. -/
theorem isPassedOver_of_linePiece {inComment : Bool} {first : Char} {rest : List Char}
    (skipped : (linePiece inComment first rest).kind = none) :
    ∀ c ∈ first :: rest.take (linePiece inComment first rest).following,
      isPassedOver c = true := by
  cases inComment with
  | true =>
      intro c member
      exact isPassedOver_of_commentPiece skipped c
        (List.cons_subset_cons first (List.take_subset _ rest) member)
  | false =>
      obtain ⟨passed, alone⟩ := isPassedOver_of_kind_eq_none skipped
      rw [show (linePiece false first rest).following = 0 from alone, List.take_zero]
      exact List.forall_mem_singleton.mpr passed

/-- A piece takes no more characters than there are. -/
theorem following_linePiece_le (inComment : Bool) (first : Char) (rest : List Char) :
    (linePiece inComment first rest).following ≤ rest.length := by
  cases inComment with
  | false => exact following_pieceAt_le first rest
  | true =>
      simp only [linePiece, ↓reduceIte, commentPiece]
      split
      · rename_i length closed
        have inside := commentLength?_le closed
        rw [List.length_cons] at inside
        exact Nat.sub_le_of_le_add inside
      · exact Nat.le_refl _

/-- The text of a line from a column on is cut into these tokens, with characters that are
passed over between them. -/
inductive Segmented (line : Nat) : Nat → List Char → List Token → Prop
  | done (column : Nat) : Segmented line column [] []
  | skip {column : Nat} {c : Char} {cs : List Char} {tokens : List Token}
      (passed : isPassedOver c = true) (rest : Segmented line (column + 1) cs tokens) :
      Segmented line column (c :: cs) tokens
  | token {column : Nat} (kind : TokenKind) {piece cs : List Char} {tokens : List Token}
      (nonempty : piece ≠ []) (rest : Segmented line (column + piece.length) cs tokens) :
      Segmented line column (piece ++ cs) (⟨kind, String.ofList piece, line, column⟩ :: tokens)

/-- Characters that are passed over may stand in front. -/
theorem Segmented.skipAll {line column : Nat} {passed cs : List Char} {tokens : List Token}
    (all : ∀ c ∈ passed, isPassedOver c = true)
    (rest : Segmented line (column + passed.length) cs tokens) :
    Segmented line column (passed ++ cs) tokens := by
  induction passed generalizing column with
  | nil => exact rest
  | cons c passed ih =>
      obtain ⟨first, others⟩ := List.forall_mem_cons.mp all
      refine .skip first (ih others ?_)
      rw [List.length_cons, Nat.add_comm passed.length, ← Nat.add_assoc] at rest
      exact rest

/-- **Scanning cuts the rest of a line into tokens.** The induction is the one of the scanner, piece
by piece. -/
theorem scanFrom_segmented (line column : Nat) (inComment : Bool) (cs : List Char) :
    Segmented line column cs (scanFrom line column inComment cs).1 := by
  induction size : cs.length using Nat.strongRecOn generalizing column inComment cs with
  | _ bound ih =>
      cases cs with
      | nil =>
          rw [scanFrom_nil]
          exact .done column
      | cons first rest =>
          -- A piece is its first character and the following ones; the scanner goes on behind them.
          have inside := following_linePiece_le inComment first rest
          have shorter :
              (rest.drop (linePiece inComment first rest).following).length < bound := by
            rw [← size, List.length_drop, List.length_cons]
            omega
          have split : first :: rest =
              (first :: rest.take (linePiece inComment first rest).following) ++
                rest.drop (linePiece inComment first rest).following := by
            rw [List.cons_append, List.take_append_drop]
          have length : column + 1 + (linePiece inComment first rest).following = column +
              (first :: rest.take (linePiece inComment first rest).following).length := by
            rw [List.length_cons, List.length_take_of_le inside]
            omega
          have others := ih _ shorter
            (column + 1 + (linePiece inComment first rest).following)
            (linePiece inComment first rest).opensComment _ rfl
          rw [scanFrom_cons]
          generalize (scanFrom line (column + 1 + (linePiece inComment first rest).following)
            (linePiece inComment first rest).opensComment
            (rest.drop (linePiece inComment first rest).following)).1 = tokens at others ⊢
          rw [length] at others
          rw [split]
          cases known : (linePiece inComment first rest).kind with
          | none => exact .skipAll (isPassedOver_of_linePiece known) others
          | some kind => exact .token kind (List.cons_ne_nil _ _) others

theorem isPassedOver_of_isBlank {c : Char} (blank : Text.isBlank c = true) :
    isPassedOver c = true := by
  rw [isPassedOver, blank]
  rfl

/-- A text is what is left when its trailing blanks are taken off, and these blanks. -/
theorem exists_trimEnd_append (cs : List Char) :
    ∃ after, cs = Text.trimEnd cs ++ after ∧ ∀ c ∈ after, Text.isBlank c = true := by
  refine ⟨(cs.reverse.takeWhile Text.isBlank).reverse, ?_, ?_⟩
  · rw [Text.trimEnd, ← List.reverse_append, List.takeWhile_append_dropWhile, List.reverse_reverse]
  · intro c member
    exact List.mem_takeWhile_imp (List.mem_reverse.mp member)

/-- A line with only a comment is that comment between blanks. -/
theorem commentLine_segmented (line : Nat) {cs : List Char}
    (comment : ['/', '/'].isPrefixOf (Text.trimStart cs) = true) :
    Segmented line 1 cs [⟨.comment, String.ofList (Text.trimEnd (Text.trimStart cs)), line,
      cs.length - (Text.trimStart cs).length + 1⟩] := by
  obtain ⟨after, split, blank⟩ := exists_trimEnd_append (Text.trimStart cs)
  have whole : cs = cs.takeWhile Text.isBlank ++ (Text.trimEnd (Text.trimStart cs) ++ after) := by
    rw [← split, Text.trimStart, List.takeWhile_append_dropWhile]
  have nonempty : Text.trimEnd (Text.trimStart cs) ≠ [] := by
    intro empty
    rw [empty, List.nil_append] at split
    obtain ⟨others, start⟩ := List.isPrefixOf_iff_prefix.mp comment
    have slash := blank '/' (by rw [← split, ← start]; exact List.mem_cons_self)
    exact absurd slash (by decide)
  have column : 1 + (cs.takeWhile Text.isBlank).length =
      cs.length - (Text.trimStart cs).length + 1 := by
    have lengths := congrArg List.length
      (List.takeWhile_append_dropWhile (p := Text.isBlank) (l := cs))
    rw [List.length_append] at lengths
    rw [Text.trimStart]
    omega
  have ending : Segmented line
      (1 + (cs.takeWhile Text.isBlank).length + (Text.trimEnd (Text.trimStart cs)).length)
      after [] := by
    rw [← List.append_nil after]
    exact .skipAll (fun c member => isPassedOver_of_isBlank (blank c member)) (.done _)
  have leading : ∀ c ∈ cs.takeWhile Text.isBlank, isPassedOver c = true :=
    fun c member => isPassedOver_of_isBlank (List.mem_takeWhile_imp member)
  have cut := Segmented.skipAll leading (.token .comment nonempty ending)
  rwa [← whole, column] at cut

/-- **A line is cut into its tokens.** -/
theorem scanLine_segmented (line : Nat) (inComment : Bool) (cs : List Char) :
    Segmented line 1 cs (scanLine line inComment cs).1 := by
  unfold scanLine
  simp only
  split
  · rename_i comment
    exact commentLine_segmented line (Bool.and_eq_true_iff.mp comment).2
  · exact scanFrom_segmented line 1 inComment cs

/-- A token stands before another: on an earlier line, or on the same line and with no character
in common. -/
def IsBefore (first second : Token) : Prop :=
  first.line < second.line ∨ first.line = second.line ∧ first.column < second.column ∧
    first.column + first.text.length ≤ second.column

/-- The character at a column of a line belongs to the token. -/
def Covers (token : Token) (line column : Nat) : Prop :=
  token.line = line ∧ token.column ≤ column ∧ column < token.column + token.text.length

/-- Lines with numbers from `start` on are cut into these tokens. -/
structure IsSegmentation (start : Nat) (lines : List (List Char)) (tokens : List Token) :
    Prop where
  /-- A token is a slice of its line that starts at its column. -/
  slice : ∀ token ∈ tokens, token.text ≠ "" ∧ ∃ number before after,
    lines[number]? = some (before ++ token.text.toList ++ after) ∧
      token.line = start + number ∧ token.column = 1 + before.length
  /-- The tokens stand in the order of the text and do not overlap. -/
  ordered : tokens.Pairwise IsBefore
  /-- Every other character is passed over. -/
  passed : ∀ {number index : Nat} {cs : List Char} {c : Char}, lines[number]? = some cs →
    cs[index]? = some c → (∀ token ∈ tokens, ¬ token.Covers (start + number) (1 + index)) →
      isPassedOver c = true

namespace Segmented

variable {line column : Nat} {cs : List Char} {tokens : List Token}

/-- **Every token is a slice of its line**, at its column and with a character at least. -/
theorem slice (segmented : Segmented line column cs tokens) :
    ∀ token ∈ tokens, token.text ≠ "" ∧ token.line = line ∧ ∃ before after,
      cs = before ++ token.text.toList ++ after ∧ token.column = column + before.length := by
  induction segmented with
  | done => exact fun _ member => absurd member List.not_mem_nil
  | @skip column c cs _ _ _ ih =>
      intro token member
      obtain ⟨nonempty, sameLine, before, after, rfl, place⟩ := ih token member
      refine ⟨nonempty, sameLine, c :: before, after, rfl, ?_⟩
      rw [place, List.length_cons]
      omega
  | @token column kind piece cs _ nonempty _ ih =>
      refine List.forall_mem_cons.mpr ⟨⟨?_, rfl, [], cs, ?_, rfl⟩, fun token member => ?_⟩
      · exact fun empty => nonempty (String.ofList_eq_empty_iff.mp empty)
      · rw [String.toList_ofList, List.nil_append]
      · obtain ⟨filled, sameLine, before, after, rfl, place⟩ := ih token member
        refine ⟨filled, sameLine, piece ++ before, after, ?_, ?_⟩
        · simp only [List.append_assoc]
        · rw [place, List.length_append, Nat.add_assoc]

/-- No token starts before the column that the cutting starts at. -/
theorem column_le (segmented : Segmented line column cs tokens) {token : Token}
    (member : token ∈ tokens) : column ≤ token.column := by
  obtain ⟨-, -, before, -, -, place⟩ := segmented.slice token member
  rw [place]
  exact Nat.le_add_right column before.length

/-- **The tokens stand one before the other** and have no character in common. -/
theorem ordered (segmented : Segmented line column cs tokens) : tokens.Pairwise IsBefore := by
  induction segmented with
  | done => exact .nil
  | skip _ _ ih => exact ih
  | @token column kind piece cs _ nonempty rest ih =>
      refine List.pairwise_cons.mpr ⟨fun token member => ?_, ih⟩
      obtain ⟨-, sameLine, -⟩ := rest.slice token member
      have after := rest.column_le member
      have filled := List.length_pos_iff.mpr nonempty
      refine .inr ⟨sameLine.symm, ?_, ?_⟩
      · show column < token.column
        omega
      · rw [String.length_ofList]
        exact after

/-- **What no token covers is passed over.** -/
theorem passed (segmented : Segmented line column cs tokens) {index : Nat} {c : Char}
    (here : cs[index]? = some c)
    (free : ∀ token ∈ tokens, ¬ token.Covers line (column + index)) : isPassedOver c = true := by
  induction segmented generalizing index with
  | done => cases here
  | @skip column first cs tokens passed _ ih =>
      cases index with
      | zero =>
          obtain rfl : first = c := Option.some.inj here
          exact passed
      | succ index =>
          refine ih here ?_
          rwa [Nat.add_assoc, Nat.add_comm 1]
  | @token column kind piece cs tokens _ _ ih =>
      obtain ⟨outside, free⟩ := List.forall_mem_cons.mp free
      have behind : piece.length ≤ index := by
        refine Nat.le_of_not_lt fun inside => outside ⟨rfl, Nat.le_add_right column index, ?_⟩
        rw [String.length_ofList]
        exact Nat.add_lt_add_left inside column
      rw [List.getElem?_append_right behind] at here
      refine ih here ?_
      rwa [Nat.add_assoc, Nat.add_sub_cancel' behind]

end Segmented

theorem IsSegmentation.nil (start : Nat) : IsSegmentation start [] [] where
  slice := fun _ member => absurd member List.not_mem_nil
  ordered := .nil
  passed := fun missing => nomatch missing

/-- One more line in front. -/
theorem IsSegmentation.cons {start : Nat} {cs : List Char} {lines : List (List Char)}
    {first others : List Token} (segmented : Segmented start 1 cs first)
    (rest : IsSegmentation (start + 1) lines others) :
    IsSegmentation start (cs :: lines) (first ++ others) where
  slice := by
    intro token member
    rcases List.mem_append.mp member with here | later
    · obtain ⟨nonempty, sameLine, before, after, rfl, place⟩ := segmented.slice token here
      exact ⟨nonempty, 0, before, after, rfl, sameLine, place⟩
    · obtain ⟨nonempty, number, before, after, found, line, place⟩ := rest.slice token later
      refine ⟨nonempty, number + 1, before, after, found, ?_, place⟩
      rw [line, Nat.add_assoc, Nat.add_comm 1]
  ordered := by
    refine List.pairwise_append.mpr
      ⟨segmented.ordered, rest.ordered, fun token here other later => ?_⟩
    obtain ⟨-, sameLine, -⟩ := segmented.slice token here
    obtain ⟨-, number, -, -, -, line, -⟩ := rest.slice other later
    refine .inl ?_
    rw [sameLine, line]
    omega
  passed := by
    intro number index line c found here free
    obtain ⟨outside, free⟩ := List.forall_mem_append.mp free
    cases number with
    | zero =>
        obtain rfl : cs = line := Option.some.inj found
        exact segmented.passed here outside
    | succ number =>
        refine rest.passed found here ?_
        rwa [Nat.add_assoc, Nat.add_comm 1]

/-- **Scanning cuts consecutive lines into tokens**, whether a comment is open at first or not. -/
theorem scanLines_isSegmentation (start : Nat) (inComment : Bool) (lines : List (List Char)) :
    IsSegmentation start lines (scanLines start inComment lines) := by
  induction lines generalizing start inComment with
  | nil => exact .nil start
  | cons cs lines ih =>
      rw [scanLines_cons]
      exact .cons (scanLine_segmented start inComment cs) (ih _ _)

/-- **A source text is cut into its tokens.** Each is a slice of its line at its column, they
stand in order without overlap, and what belongs to none of them is passed over; so every
character of a name, a number, a string, an operator or a punctuation mark belongs to a token. -/
theorem scan_segments (source : String) :
    IsSegmentation 1 (Text.lines source.toList) (scan source) ∧
      ∀ number index cs c, (Text.lines source.toList)[number]? = some cs → cs[index]? = some c →
        isSignificant c = true →
          ∃ token ∈ scan source, token.Covers (1 + number) (1 + index) := by
  have cut : IsSegmentation 1 (Text.lines source.toList) (scan source) :=
    scanLines_isSegmentation 1 false _
  refine ⟨cut, fun number index cs c found here significant => ?_⟩
  by_contra free
  have passed := cut.passed found here fun token member covers => free ⟨token, member, covers⟩
  rw [isSignificant_eq_not (toNat_le_of_isSignificant significant), passed] at significant
  cases significant

end MiniVerilog.Token
