import MiniVerilog.Proofs.Token.Lexeme

/-! # Texts that go on in further lines

A text that goes on after a line feed has the tokens that it has alone, and further ones
(`MiniVerilog.Token.scan_append`). Only its last line may be read in another way: it loses a
carriage return, which a comment or a string without an end of its own has as its last
character.
-/

namespace MiniVerilog.Token

/-- A carriage return does not end a block comment. -/
theorem commentLength?_return {cs : List Char} (unclosed : commentLength? cs = none) :
    commentLength? (cs ++ ['\r']) = none := by
  induction cs with
  | nil => rfl
  | cons c cs ih =>
      by_cases ends : c = '*' ∧ cs.head? = some '/'
      · obtain ⟨rfl, slash⟩ := ends
        obtain ⟨rest, rfl⟩ := List.head?_eq_some_iff.mp slash
        cases unclosed
      · have still : ¬ (c = '*' ∧ (cs ++ ['\r']).head? = some '/') := by
          rintro ⟨star, slash⟩
          cases cs with
          | nil => cases slash
          | cons d cs => exact ends ⟨star, slash⟩
        rw [commentLength?_cons ends, Option.map_eq_none_iff] at unclosed
        rw [List.cons_append, commentLength?_cons still, ih unclosed]
        rfl

/-- A carriage return does not end a string. -/
theorem closesString_return {cs : List Char} (unclosed : closesString cs = false) :
    closesString (cs ++ ['\r']) = false := by
  fun_induction closesString cs with
  | case1 => rfl
  | case2 => cases unclosed
  | case3 escaped rest ih => exact ih unclosed
  | case4 c rest noQuote noEscape ih =>
      by_cases escape : c = '\\'
      · subst escape
        cases rest with
        | nil => rfl
        | cons escaped rest => exact (noEscape escaped rest rfl rfl).elim
      · rw [List.cons_append, closesString.eq_4 c (rest ++ ['\r']) noQuote
          fun _ _ backslash _ => escape backslash]
        exact ih unclosed

theorem delimited_return : Delimited ['\r'] :=
  .cons (by decide) []

/-- What runs on over the end of the line runs on over a carriage return. -/
theorem runsOn_return {first : Char} {rest : List Char} (runs : runsOn first rest = true) :
    runsOn first (rest ++ ['\r']) = true := by
  unfold runsOn at runs ⊢
  rw [Start.of_append first rest delimited_return]
  generalize Start.of first rest.head? = start at runs ⊢
  cases start with
  | lineComment => rfl
  | blockComment =>
      rw [Start.runsOn, Option.isNone_iff_eq_none] at runs ⊢
      cases rest with
      | nil => rfl
      | cons c rest => exact commentLength?_return runs
  | string =>
      rw [Start.runsOn, Bool.not_eq_true'] at runs ⊢
      exact closesString_return runs
  | _ => cases runs

/-- The piece at the front of a line. -/
def linePiece (inComment : Bool) (first : Char) (rest : List Char) : Piece :=
  if inComment then commentPiece first rest else pieceAt first rest

/-- What is no code: a comment or a string. -/
def IsQuoted (kind : TokenKind) : Prop :=
  kind = .comment ∨ kind = .string

/-- Before a carriage return a piece is what it is at the end of a line, unless it takes the
carriage return as well: then it is a comment or a string, or skipped. -/
theorem linePiece_return (inComment : Bool) (first : Char) (rest : List Char) :
    (linePiece inComment first (rest ++ ['\r']) = linePiece inComment first rest ∧
      (linePiece inComment first rest).following ≤ rest.length) ∨
    ((linePiece inComment first (rest ++ ['\r'])).following = (rest ++ ['\r']).length ∧
      ∀ kind ∈ (linePiece inComment first (rest ++ ['\r'])).kind, IsQuoted kind) := by
  cases inComment with
  | false =>
      simp only [linePiece, Bool.false_eq_true, ↓reduceIte]
      by_cases runs : runsOn first rest = true
      · have runs := runsOn_return runs
        refine .inr ⟨following_of_runsOn runs, ?_⟩
        intro kind isKind
        have quoted := Start.kind_of_runsOn runs first (rest ++ ['\r'])
        rw [← pieceAt_eq, isKind] at quoted
        exact quoted.imp Option.some.inj Option.some.inj
      · have ends := Bool.eq_false_iff.mpr runs
        exact .inl ⟨pieceAt_append ends delimited_return, following_pieceAt_le first rest⟩
  | true =>
      simp only [linePiece, ↓reduceIte]
      cases closed : commentLength? (first :: rest) with
      | some length =>
          have inside := commentLength?_le closed
          have same := commentLength?_append closed ['\r']
          rw [List.cons_append] at same
          rw [List.length_cons] at inside
          refine .inl ⟨?_, ?_⟩
          · simp only [commentPiece, closed, same]
          · simp only [commentPiece, closed]
            omega
      | none =>
          have same := commentLength?_return closed
          rw [List.cons_append] at same
          refine .inr ⟨?_, ?_⟩
          · simp only [commentPiece, same]
          · intro kind isKind
            simp only [commentPiece, same] at isKind
            split at isKind
            · cases isKind
            · exact .inl (Option.some.inj isKind).symm

/-- **Scanning takes one piece off the front**: the tokens are that of the piece, if it is one, and
those of the rest. -/
theorem scanFrom_cons (line column : Nat) (inComment : Bool) (first : Char) (rest : List Char) :
    (scanFrom line column inComment (first :: rest)).1 =
      ((linePiece inComment first rest).kind.map fun kind =>
        ⟨kind, String.ofList (first :: rest.take (linePiece inComment first rest).following), line,
          column⟩).toList ++
      (scanFrom line (column + 1 + (linePiece inComment first rest).following)
        (linePiece inComment first rest).opensComment
        (rest.drop (linePiece inComment first rest).following)).1 := by
  rw [scanFrom]
  unfold linePiece
  generalize (if inComment then commentPiece first rest else pieceAt first rest) = piece
  obtain ⟨kind, following, opensComment⟩ := piece
  cases kind with
  | none => rfl
  | some kind => rfl

/-- Whether a comment is open at the end is told by the rest behind the first piece. -/
theorem scanFrom_cons_snd (line column : Nat) (inComment : Bool) (first : Char)
    (rest : List Char) : (scanFrom line column inComment (first :: rest)).2 =
      (scanFrom line (column + 1 + (linePiece inComment first rest).following)
        (linePiece inComment first rest).opensComment
        (rest.drop (linePiece inComment first rest).following)).2 := by
  rw [scanFrom]
  unfold linePiece
  generalize (if inComment then commentPiece first rest else pieceAt first rest) = piece
  obtain ⟨kind, following, opensComment⟩ := piece
  cases kind with
  | none => rfl
  | some kind => rfl

/-- Two ways to read the end of a text have tokens in common, and in the first one only
comments and strings follow them. -/
def Agree (first second : List Token) : Prop :=
  ∃ common own others, first = common ++ own ∧ second = common ++ others ∧
    ∀ token ∈ own, IsQuoted token.kind

/-- Tokens before both keep the agreement. -/
theorem Agree.append {first second : List Token} (agree : Agree first second)
    (before : List Token) : Agree (before ++ first) (before ++ second) := by
  obtain ⟨common, own, others, rfl, rfl, quoted⟩ := agree
  exact ⟨before ++ common, own, others, (List.append_assoc _ _ _).symm,
    (List.append_assoc _ _ _).symm, quoted⟩

/-- Tokens after the second one keep the agreement, since only the first one must end in comments
and strings. -/
theorem Agree.go_on {first second : List Token} (agree : Agree first second) (after : List Token) :
    Agree first (second ++ after) := by
  obtain ⟨common, own, others, rfl, rfl, quoted⟩ := agree
  exact ⟨common, own, others ++ after, rfl, List.append_assoc _ _ _, quoted⟩

theorem Agree.of_quoted {first : List Token} (quoted : ∀ token ∈ first, IsQuoted token.kind)
    (second : List Token) : Agree first second :=
  ⟨[], first, second, rfl, rfl, quoted⟩

theorem Agree.refl (tokens : List Token) : Agree tokens tokens :=
  ⟨tokens, [], [], (List.append_nil _).symm, (List.append_nil _).symm, List.forall_mem_nil _⟩

/-- A carriage return alone gives no token. -/
theorem scanFrom_nil_return (line column : Nat) (inComment : Bool) :
    (scanFrom line column inComment ['\r']).1 = [] := by
  have blank : (linePiece inComment '\r' []).kind = none ∧
      (linePiece inComment '\r' []).following = 0 := by
    cases inComment <;> decide
  rw [scanFrom_cons, blank.1, blank.2, List.drop_nil, scanFrom]
  rfl

/-- A carriage return at the end of a line changes no token but a comment or a string. -/
theorem scanFrom_return (line column : Nat) (inComment : Bool) (cs : List Char) :
    Agree (scanFrom line column inComment (cs ++ ['\r'])).1
      (scanFrom line column inComment cs).1 := by
  induction size : cs.length using Nat.strong_induction_on generalizing column inComment cs with
  | _ bound ih =>
      cases cs with
      | nil =>
          rw [List.nil_append, scanFrom_nil_return]
          exact .of_quoted (List.forall_mem_nil _) _
      | cons first rest =>
          rw [List.cons_append, scanFrom_cons]
          rcases linePiece_return inComment first rest with ⟨same, inside⟩ | ⟨whole, quoted⟩
          · have shorter :
                (rest.drop (linePiece inComment first rest).following).length < bound := by
              rw [← size, List.length_drop, List.length_cons]
              omega
            rw [same, scanFrom_cons, List.take_append_of_le_length inside,
              List.drop_append_of_le_length inside]
            exact (ih _ shorter _ _ _ rfl).append _
          · rw [whole, List.drop_length, scanFrom_nil, List.append_nil]
            apply Agree.of_quoted
            intro token member
            obtain ⟨kind, isKind, rfl⟩ := Option.map_eq_some_iff.mp (Option.mem_toList.mp member)
            exact quoted kind isKind

/-- A word at the front of a line stays there when more text follows. -/
theorem isPrefixOf_trimStart_append {word cs : List Char} (nonempty : word ≠ [])
    (atFront : word.isPrefixOf (Text.trimStart cs) = true) (after : List Char) :
    word.isPrefixOf (Text.trimStart (cs ++ after)) = true := by
  rw [List.isPrefixOf_iff_prefix] at atFront ⊢
  have some : (Text.trimStart cs).isEmpty = false := by
    rw [List.isEmpty_eq_false_iff]
    exact fun none => nonempty (List.prefix_nil.mp (none ▸ atFront))
  rw [Text.trimStart, List.dropWhile_append, ← Text.trimStart, some]
  exact atFront.trans (List.prefix_append _ _)

/-- **A carriage return at the end of a line changes at most its last comment or string.** -/
theorem scanLine_return (line : Nat) (inComment : Bool) (cs : List Char) :
    Agree (scanLine line inComment (cs ++ ['\r'])).1 (scanLine line inComment cs).1 := by
  unfold scanLine
  simp only
  split
  · exact .of_quoted (List.forall_mem_singleton.mpr (.inl rfl)) _
  · rename_i noComment
    rw [if_neg]
    · exact scanFrom_return line 1 inComment cs
    · intro comment
      obtain ⟨outside, atFront⟩ := Bool.and_eq_true_iff.mp comment
      exact noComment (Bool.and_eq_true_iff.mpr
        ⟨outside, isPrefixOf_trimStart_append (List.cons_ne_nil _ _) atFront ['\r']⟩)

/-- The lines after the first one start with the comment that it leaves open. -/
theorem scanLines_cons (line : Nat) (inComment : Bool) (cs : List Char)
    (following : List (List Char)) :
    scanLines line inComment (cs :: following) = (scanLine line inComment cs).1 ++
      scanLines (line + 1) (scanLine line inComment cs).2 following :=
  rfl

/-- Whether a block comment is open after consecutive lines, the first of which has the given
number. -/
def openAfter (line : Nat) (inComment : Bool) : List (List Char) → Bool
  | [] => inComment
  | cs :: following => openAfter (line + 1) (scanLine line inComment cs).2 following

/-- The lines of a text are read as they are, whatever lines come after them. -/
theorem scanLines_append (line : Nat) (inComment : Bool) (before after : List (List Char)) :
    scanLines line inComment (before ++ after) = scanLines line inComment before ++
      scanLines (line + before.length) (openAfter line inComment before) after := by
  induction before generalizing line inComment with
  | nil => rfl
  | cons cs before ih =>
      rw [List.cons_append, scanLines_cons, scanLines_cons, ih, List.append_assoc,
        List.length_cons, Nat.add_right_comm, ← Nat.add_assoc]
      rfl

/-- **A text that goes on after a line feed has the tokens it has alone, and further ones**,
but for comments and strings at the end of the text. -/
theorem scan_append (first second : String) :
    Agree (scan first) (scan (first ++ "\n" ++ second)) := by
  have lines : Text.lines (first ++ "\n" ++ second).toList =
      Text.lines (first.toList ++ '\n' :: second.toList) := by
    rw [String.toList_append, String.toList_append, List.append_assoc]
    rfl
  obtain ⟨before, last, alone, here, there, shape⟩ :=
    Text.lines_append_feed first.toList second.toList
  rw [scan, scan, lines, here, there, scanLines_append, scanLines_append, scanLines_cons]
  apply Agree.append
  apply Agree.go_on
  rcases shape with ⟨rfl, -⟩ | rfl | rfl
  · exact .of_quoted (List.forall_mem_nil _) _
  · rw [scanLines_cons, scanLines, List.append_nil]
    exact .refl _
  · rw [scanLines_cons, scanLines, List.append_nil]
    exact scanLine_return _ _ last

end MiniVerilog.Token
