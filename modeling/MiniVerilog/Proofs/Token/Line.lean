import MiniVerilog.Proofs.Token.Lexeme

/-! # Lines that go on

A line that does not end in a comment or a string is read as before when it goes on after
a delimiter (`MiniVerilog.Token.bareTokens_append`). A token never reaches over the end
of a line (`MiniVerilog.Token.not_mem_text_of_mem_scan`).
-/

namespace MiniVerilog.Token

/-- A piece that does not run on ends at the same place when the line goes on. -/
theorem bareTokens_cons_append {first : Char} {rest after : List Char}
    (ends : runsOn first rest = false) (delimited : Delimited after) :
    bareTokens (first :: rest ++ after) = (bareToken? first rest).toList ++
      bareTokens (rest.drop (pieceAt first rest).following ++ after) := by
  have inside := following_pieceAt_le first rest
  have same : bareToken? first (rest ++ after) = bareToken? first rest := by
    rw [bareToken?, bareToken?, pieceAt_append ends delimited, List.take_append_of_le_length inside]
  rw [List.cons_append, bareTokens_cons, same, pieceAt_append ends delimited,
    List.drop_append_of_le_length inside]

/-- **A line that does not end in a comment or a string is read as before.** -/
theorem bareTokens_append {cs after : List Char} (delimited : Delimited after)
    (ends : ∀ token ∈ (bareTokens cs).getLast?, token.kind ≠ .comment ∧ token.kind ≠ .string) :
    bareTokens (cs ++ after) = bareTokens cs ++ bareTokens after := by
  induction size : cs.length using Nat.strong_induction_on generalizing cs with
  | _ bound ih =>
      cases cs with
      | nil => rw [bareTokens_nil, List.nil_append, List.nil_append]
      | cons first rest =>
          have stops : runsOn first rest = false := by
            rw [Bool.eq_false_iff]
            intro runs
            have whole := following_of_runsOn runs
            have kind := Start.kind_of_runsOn runs first rest
            rw [← pieceAt_eq] at kind
            rw [bareTokens_cons, whole, List.drop_length, bareTokens_nil, List.append_nil,
              bareToken?] at ends
            rcases kind with comment | string
            · rw [comment] at ends
              exact (ends _ rfl).1 rfl
            · rw [string] at ends
              exact (ends _ rfl).2 rfl
          have shorter : (rest.drop (pieceAt first rest).following).length < bound := by
            rw [← size, List.length_drop, List.length_cons]
            omega
          have lastEnds : ∀ token ∈
              (bareTokens (rest.drop (pieceAt first rest).following)).getLast?,
              token.kind ≠ .comment ∧ token.kind ≠ .string := by
            intro token last
            apply ends
            rw [bareTokens_cons, List.getLast?_append, last]
            rfl
          rw [bareTokens_cons_append stops delimited, bareTokens_cons, ih _ shorter lastEnds rfl,
            List.append_assoc]

/-- The characters of a token stand in the rest of the line that was scanned. -/
theorem mem_of_mem_scanFrom {line column : Nat} {inComment : Bool} {cs : List Char} {token : Token}
    (member : token ∈ (scanFrom line column inComment cs).1) :
    ∀ c ∈ token.text.toList, c ∈ cs := by
  intro c inside
  fun_induction scanFrom line column inComment cs with
  | case1 => cases member
  | case2 column inComment first rest piece tokens stillOpen following kind known ih =>
      rw [following] at ih
      rcases List.mem_cons.mp member with rfl | later
      · rw [String.toList_ofList] at inside
        rcases List.mem_cons.mp inside with rfl | taken
        · exact List.mem_cons_self
        · exact List.mem_cons_of_mem _ (List.mem_of_mem_take taken)
      · exact List.mem_cons_of_mem _ (List.mem_of_mem_drop (ih later))
  | case3 column inComment first rest piece tokens stillOpen following known ih =>
      rw [following] at ih
      exact List.mem_cons_of_mem _ (List.mem_of_mem_drop (ih member))

theorem mem_of_mem_trim {c : Char} {cs : List Char} (member : c ∈ Text.trim cs) : c ∈ cs := by
  have start : c ∈ (Text.trimStart cs).reverse :=
    (List.dropWhile_suffix Text.isBlank).subset (List.mem_reverse.mp member)
  exact (List.dropWhile_suffix Text.isBlank).subset (List.mem_reverse.mp start)

/-- The characters of a token stand in its line. -/
theorem mem_of_mem_scanLine {line : Nat} {inComment : Bool} {cs : List Char} {token : Token}
    (member : token ∈ (scanLine line inComment cs).1) : ∀ c ∈ token.text.toList, c ∈ cs := by
  intro c inside
  unfold scanLine at member
  simp only at member
  split at member
  · cases List.mem_singleton.mp member
    rw [String.toList_ofList] at inside
    exact mem_of_mem_trim inside
  · exact mem_of_mem_scanFrom member c inside

/-- A token has no line feed. -/
theorem not_mem_text_of_mem_scan {source : String} {token : Token} (member : token ∈ scan source) :
    '\n' ∉ token.text.toList := by
  have noFeed := Text.not_mem_of_mem_lines source.toList
  unfold scan at member
  generalize 1 = line, false = inComment, Text.lines source.toList = lines at member noFeed
  induction lines generalizing line inComment with
  | nil => cases member
  | cons cs following ih =>
      rcases List.mem_append.mp (show token ∈ (scanLine line inComment cs).1 ++
        scanLines (line + 1) (scanLine line inComment cs).2 following from member) with here | later
      · exact fun feed => noFeed cs List.mem_cons_self (mem_of_mem_scanLine here _ feed)
      · exact ih _ _ later fun other inside => noFeed other (List.mem_cons_of_mem _ inside)

end MiniVerilog.Token
