import MiniVerilog.Proofs.Source.Rules
import MiniVerilog.Proofs.Source.Suffix
import MiniVerilog.Proofs.Source.Text
import MiniVerilog.Proofs.Token.Line

/-! # Texts that stand on their own

The text of a right side, a condition or a list of labels stands on its own when it is
read as itself up to the mark after it. Then it is read so in every line that goes on
after that mark (`MiniVerilog.Source.takeRightSide_of_stands`,
`MiniVerilog.Source.takeParenthesised_of_stands`,
`MiniVerilog.Source.takeUntil_of_labelsStand`).
-/

namespace MiniVerilog.Source

open Token (bareTokens Delimited IsLexeme punctuation)

/-- The tokens of a line without its comments. -/
def codeTokens (cs : List Char) : List Token :=
  (bareTokens cs).filter fun token => token.kind != .comment

theorem codeTokens_nil : codeTokens [] = [] := by
  rw [codeTokens, Token.bareTokens_nil]
  rfl

theorem codeTokens_blank (cs : List Char) : codeTokens (' ' :: cs) = codeTokens cs := by
  rw [codeTokens, Token.bareTokens_cons_of_isBlank (by decide)]
  rfl

/-- A lexeme before a delimiter is one token of the code. -/
theorem codeTokens_lexeme {kind : TokenKind} {text : String} (lexeme : IsLexeme kind text)
    (noComment : kind ≠ .comment) {after : List Char} (delimited : Delimited after) :
    codeTokens (text.toList ++ after) = ⟨kind, text, 0, 0⟩ :: codeTokens after := by
  have kept : (kind != .comment) = true := bne_iff_ne.mpr noComment
  rw [codeTokens, lexeme.bareTokens_append delimited]
  exact List.filter_cons_of_pos kept

theorem codeTokens_word (keyword : Keyword) {after : List Char} (delimited : Delimited after) :
    codeTokens (keyword.spelling.toList ++ after) = word keyword :: codeTokens after :=
  codeTokens_lexeme (Token.isLexeme_keyword keyword) (fun same => nomatch same) delimited

/-- A punctuation mark is one token of the code. -/
theorem codeTokens_mark {c : Char} (isMark : c ∈ punctuation) (after : List Char) :
    codeTokens (c :: after) = mark (String.singleton c) :: codeTokens after := by
  have piece := Token.pieceAt_delimiter (List.mem_append_right _ isMark) after
  rw [List.contains_iff_mem.mpr isMark, if_pos rfl] at piece
  rw [codeTokens, Token.bareTokens_cons, Token.bareToken?, piece]
  rfl

/-- What was read up to a token is read when the list goes on after it. -/
theorem takeUntil_append {stop : Token → Bool} {depth : Int} {tokens rest : List Token}
    {words : List String} (taken : takeUntil stop depth tokens = (words, rest)) (found : rest ≠ [])
    (after : List Token) : takeUntil stop depth (tokens ++ after) = (words, rest ++ after) := by
  fun_induction takeUntil stop depth tokens generalizing words with
  | case1 =>
      cases taken
      exact (found rfl).elim
  | case2 depth token following stops =>
      cases taken
      rw [List.cons_append, takeUntil, if_pos stops]
  | case3 depth token following goesOn others last read ih =>
      cases taken
      rw [List.cons_append, takeUntil, if_neg goesOn, ih read]

/-- The tokens of a text with a mark after it. -/
def tokensBefore (last : Char) (text : String) : List Token :=
  (Token.scan (text.push last)).map Token.bare

/-- The words of a text that is read up to the mark after it and has no comment. -/
def wordsBefore? (stop : Token → Bool) (last : Char) (text : String) : Option (List String) :=
  let read := takeUntil stop 0 (tokensBefore last text)
  if read.2 = [mark (String.singleton last)] ∧
      ∀ token ∈ tokensBefore last text, token.kind ≠ .comment then some read.1 else none

section Words

variable {stop : Token → Bool} {last : Char} {text : String} {words : List String}

/-- A text with words is read up to the mark after it and has no comment. -/
theorem wordsBefore?_eq_some (read : wordsBefore? stop last text = some words) :
    takeUntil stop 0 (tokensBefore last text) = (words, [mark (String.singleton last)]) ∧
      ∀ token ∈ tokensBefore last text, token.kind ≠ .comment := by
  unfold wordsBefore? at read
  simp only at read
  split at read
  · rename_i ends
    obtain ⟨after, noComment⟩ := ends
    rw [← Option.some.inj read, ← after]
    exact ⟨rfl, noComment⟩
  · cases read

/-- The words of a text have no line ends in them. -/
theorem not_mem_of_wordsBefore? (read : wordsBefore? stop last text = some words) :
    ∀ word ∈ words, '\n' ∉ word.toList := by
  intro word member
  obtain ⟨taken, -⟩ := wordsBefore?_eq_some read
  have inside := takeUntil_subset stop 0 (tokensBefore last text)
  rw [taken] at inside
  obtain ⟨bare, scanned, rfl⟩ := List.mem_map.mp (inside member)
  obtain ⟨token, inScan, rfl⟩ := List.mem_map.mp scanned
  change '\n' ∉ token.text.toList
  exact Token.not_mem_text_of_mem_scan inScan

/-- **A text before its mark is read in every line that goes on.** -/
theorem codeTokens_of_wordsBefore? (read : wordsBefore? stop last text = some words)
    (oneLine : '\n' ∉ text.toList) (isMark : last ∈ punctuation) {after : List Char}
    (delimited : Delimited after) :
    codeTokens (text.toList ++ last :: after) = tokensBefore last text ++ codeTokens after := by
  obtain ⟨taken, noComment⟩ := wordsBefore?_eq_some read
  have noFeed : '\n' ∉ (text.push last).toList := by
    rw [String.toList_push, List.mem_append, List.mem_singleton]
    rintro (inText | rfl)
    · exact oneLine inText
    · exact absurd isMark (by decide)
  have start : ['/', '/'].isPrefixOf (Text.trimStart (text.push last).toList) = false := by
    rw [Bool.eq_false_iff]
    -- A line that starts with a comment would be one comment token, which no words stand before.
    intro comment
    have nonempty : (text.push last).toList ≠ [] := by
      rw [String.toList_push]
      exact List.append_ne_nil_of_right_ne_nil _ (List.cons_ne_nil _ _)
    have only : ∃ token : Token, token.kind = .comment ∧ Token.scan (text.push last) = [token] := by
      unfold Token.scan
      rw [Text.lines_of_not_mem nonempty noFeed]
      change ∃ token : Token, _ ∧ (Token.scanLine 1 false (text.push last).toList).1 ++ [] = [token]
      unfold Token.scanLine
      simp only [comment, Bool.not_false, Bool.and_self, ↓reduceIte, List.append_nil]
      exact ⟨_, rfl, rfl⟩
    obtain ⟨token, isComment, scanned⟩ := only
    rw [tokensBefore, scanned] at noComment
    exact noComment _ List.mem_cons_self isComment
  have tokens : bareTokens (text.toList ++ [last]) = tokensBefore last text := by
    rw [tokensBefore, Token.bare_scan noFeed start, String.toList_push]
  have final : (tokensBefore last text).getLast? = some (mark (String.singleton last)) := by
    obtain ⟨before, split⟩ := takeUntil_suffix stop 0 (tokensBefore last text)
    rw [← split, taken, List.getLast?_append]
    rfl
  have ends : ∀ token ∈ (bareTokens (text.toList ++ [last])).getLast?,
      token.kind ≠ .comment ∧ token.kind ≠ .string := by
    rw [tokens, final]
    intro token isLast
    cases isLast
    constructor
    · intro same
      cases same
    · intro same
      cases same
  have kept : (tokensBefore last text).filter (fun token => token.kind != .comment) =
      tokensBefore last text :=
    List.filter_eq_self.mpr fun token member => bne_iff_ne.mpr (noComment token member)
  have line : text.toList ++ last :: after = text.toList ++ [last] ++ after := by
    rw [List.append_assoc]
    rfl
  rw [line, codeTokens, Token.bareTokens_append delimited ends, List.filter_append, tokens, kept]
  rfl

/-- **What stands on its own is read so before its mark**, whatever follows. -/
theorem takeUntil_of_wordsBefore? (read : wordsBefore? stop last text = some words)
    (oneLine : '\n' ∉ text.toList) (isMark : last ∈ punctuation) {after : List Char}
    (delimited : Delimited after) :
    takeUntil stop 0 (codeTokens (text.toList ++ last :: after)) =
      (words, mark (String.singleton last) :: codeTokens after) := by
  obtain ⟨taken, -⟩ := wordsBefore?_eq_some read
  rw [codeTokens_of_wordsBefore? read oneLine isMark delimited]
  exact takeUntil_append taken (List.cons_ne_nil _ _) _

/-- The first token of a text before its mark is the same, whatever follows. -/
theorem headIs_of_wordsBefore? (read : wordsBefore? stop last text = some words)
    (oneLine : '\n' ∉ text.toList) (isMark : last ∈ punctuation) {after : List Char}
    (delimited : Delimited after) (property : Token → Bool) :
    headIs property (codeTokens (text.toList ++ last :: after)) =
      headIs property (tokensBefore last text) := by
  obtain ⟨taken, -⟩ := wordsBefore?_eq_some read
  rw [codeTokens_of_wordsBefore? read oneLine isMark delimited]
  cases tokens : tokensBefore last text with
  | nil =>
      rw [tokens] at taken
      cases taken
  | cons first rest => rfl

end Words

/-- Taking parentheses and blanks away adds no character. -/
theorem mem_unwrap {text : String} {c : Char} (member : c ∈ (unwrap text).toList) :
    c ∈ text.toList := by
  unfold unwrap at member
  simp only at member
  split at member
  · rename_i inner between
    have inside : ∀ d ∈ inner, d ∈ Text.trim text.toList := by
      intro d inInner
      unfold betweenParentheses? at between
      split at between
      · rename_i rest trimmed
        split at between
        · cases between
          rw [trimmed]
          exact List.mem_cons_of_mem _ (List.mem_of_mem_dropLast inInner)
        · cases between
      · cases between
    rw [String.toList_ofList] at member
    apply Token.mem_of_mem_trim
    split at member
    · exact inside c (Token.mem_of_mem_trim member)
    · exact member
  · rw [String.toList_ofList] at member
    exact Token.mem_of_mem_trim member

theorem not_mem_expression {words : List String} (noFeed : ∀ word ∈ words, '\n' ∉ word.toList) :
    '\n' ∉ (expression words).toList :=
  fun feed => not_mem_joined (by decide) noFeed (mem_unwrap feed)

/-- The words of a group are words of the whole. -/
theorem mem_of_mem_commaGroups {words group : List String} {depth : Int} {word : String}
    (member : group ∈ commaGroups depth words) (inside : word ∈ group) : word ∈ words := by
  induction words generalizing depth group with
  | nil =>
      rw [List.mem_singleton.mp member] at inside
      cases inside
  | cons first words ih =>
      unfold commaGroups at member
      split at member
      · rcases List.mem_cons.mp member with rfl | later
        · cases inside
        · exact List.mem_cons_of_mem _ (ih later inside)
      · cases groups : commaGroups (depth + bracketNesting first) words with
        | nil =>
            rw [groups] at member
            cases member
        | cons head others =>
            rw [groups, List.modifyHead_cons] at member
            rcases List.mem_cons.mp member with rfl | later
            · rcases List.mem_cons.mp inside with rfl | within
              · exact List.mem_cons_self
              · exact List.mem_cons_of_mem _ (ih (groups ▸ List.mem_cons_self) within)
            · exact List.mem_cons_of_mem _ (ih (groups ▸ List.mem_cons_of_mem _ later) inside)

/-- Labels of words without line ends have none. -/
theorem not_mem_labels {words : List String} (noFeed : ∀ word ∈ words, '\n' ∉ word.toList) :
    ∀ label ∈ labels words, '\n' ∉ label.toList := by
  intro label member
  have ⟨group, inGroups, same⟩ : ∃ group ∈ commaGroups 0 words, joined group = label := by
    unfold labels at member
    simp only at member
    obtain ⟨group, inGroups, same⟩ := List.mem_map.mp member
    split at inGroups
    · exact ⟨group, List.mem_of_mem_dropLast inGroups, same⟩
    · exact ⟨group, inGroups, same⟩
  rw [← same]
  exact not_mem_joined (by decide) fun word inGroup =>
    noFeed word (mem_of_mem_commaGroups inGroups inGroup)

/-- A right side is read as itself. -/
def rightSideStands (text : String) : Bool :=
  !headIs (Token.isOperator "#") (tokensBefore ';' text) &&
    (wordsBefore? endsAssignment ';' text).map expression == some text

/-- A condition or a subject is read as itself. -/
def conditionStands (text : String) : Bool :=
  (wordsBefore? (Token.isOperator ")") ')' text).map expression == some text

/-- The labels of a case arm are read as themselves and do not start with `default`. -/
def labelsStand (listed : List String) : Bool :=
  !headIs (Token.isKeyword .default_) (tokensBefore ':' (", ".intercalate listed)) &&
    (wordsBefore? endsLabels ':' (", ".intercalate listed)).map labels == some listed

/-- A right side that stands has no line feed. -/
theorem exists_words_of_rightSideStands {text : String} (stands : rightSideStands text = true) :
    ∃ words, wordsBefore? endsAssignment ';' text = some words ∧ expression words = text ∧
      '\n' ∉ text.toList := by
  obtain ⟨-, read⟩ := Bool.and_eq_true_iff.mp stands
  obtain ⟨words, taken, same⟩ := Option.map_eq_some_iff.mp (beq_iff_eq.mp read)
  exact ⟨words, taken, same, same ▸ not_mem_expression (not_mem_of_wordsBefore? taken)⟩

/-- A condition that stands has no line feed. -/
theorem exists_words_of_conditionStands {text : String} (stands : conditionStands text = true) :
    ∃ words, wordsBefore? (Token.isOperator ")") ')' text = some words ∧ expression words = text ∧
      '\n' ∉ text.toList := by
  obtain ⟨words, taken, same⟩ := Option.map_eq_some_iff.mp (beq_iff_eq.mp stands)
  exact ⟨words, taken, same, same ▸ not_mem_expression (not_mem_of_wordsBefore? taken)⟩

/-- **A right side that stands is read before its semicolon.** -/
theorem takeRightSide_of_stands {text : String} (stands : rightSideStands text = true)
    {after : List Char} (delimited : Delimited after) :
    takeRightSide (codeTokens (text.toList ++ ';' :: after)) = (text, codeTokens after) := by
  obtain ⟨words, taken, same, oneLine⟩ := exists_words_of_rightSideStands stands
  have noDelay := (Bool.not_eq_true' _).mp (Bool.and_eq_true_iff.mp stands).1
  have isMark : ';' ∈ punctuation := by decide
  rw [takeRightSide_mark _ (takeUntil_of_wordsBefore? taken oneLine isMark delimited), same]
  rw [headIs_of_wordsBefore? taken oneLine isMark delimited]
  exact noDelay

/-- **A condition that stands is read in its parentheses.** -/
theorem takeParenthesised_of_stands {text : String} (stands : conditionStands text = true)
    {after : List Char} (delimited : Delimited after) :
    ∃ words, takeParenthesised (codeTokens ('(' :: (text.toList ++ ')' :: after))) =
      (words, codeTokens after) ∧ unwrap (joined words) = text := by
  obtain ⟨words, taken, same, oneLine⟩ := exists_words_of_conditionStands stands
  refine ⟨words, ?_, same⟩
  rw [codeTokens_mark (by decide)]
  exact takeParenthesised_mark (takeUntil_of_wordsBefore? taken oneLine (by decide) delimited)

/-- A list of labels that stands has no line feed. -/
theorem exists_words_of_labelsStand {listed : List String} (stand : labelsStand listed = true) :
    ∃ words, wordsBefore? endsLabels ':' (", ".intercalate listed) = some words ∧
      labels words = listed ∧ '\n' ∉ (", ".intercalate listed).toList := by
  obtain ⟨-, read⟩ := Bool.and_eq_true_iff.mp stand
  obtain ⟨words, taken, same⟩ := Option.map_eq_some_iff.mp (beq_iff_eq.mp read)
  refine ⟨words, taken, same, ?_⟩
  intro feed
  have noFeed := not_mem_labels (not_mem_of_wordsBefore? taken)
  rw [same] at noFeed
  rcases mem_intercalate feed with separator | ⟨label, member, inside⟩
  · exact absurd separator (by decide)
  · exact noFeed label member inside

/-- The first token of labels that stand on their own is the same, whatever follows. -/
theorem headIs_of_labelsStand {listed : List String} (stand : labelsStand listed = true)
    {after : List Char} (delimited : Delimited after) (property : Token → Bool) :
    headIs property (codeTokens ((", ".intercalate listed).toList ++ ':' :: after)) =
      headIs property (tokensBefore ':' (", ".intercalate listed)) := by
  obtain ⟨words, taken, -, oneLine⟩ := exists_words_of_labelsStand stand
  exact headIs_of_wordsBefore? taken oneLine (by decide) delimited property

/-- **Labels that stand are read before their colon.** -/
theorem takeUntil_of_labelsStand {listed : List String} (stand : labelsStand listed = true)
    {after : List Char} (delimited : Delimited after) :
    ∃ first tokens words,
      codeTokens ((", ".intercalate listed).toList ++ ':' :: after) = first :: tokens ∧
      first.isKeyword .default_ = false ∧
      takeUntil endsLabels 0 (first :: tokens) = (words, mark ":" :: codeTokens after) ∧
      labels words = listed := by
  obtain ⟨words, taken, same, oneLine⟩ := exists_words_of_labelsStand stand
  have noDefault := (Bool.not_eq_true' _).mp (Bool.and_eq_true_iff.mp stand).1
  have reads := takeUntil_of_wordsBefore? taken oneLine (by decide) delimited
  rw [← headIs_of_labelsStand stand delimited] at noDefault
  cases tokens : codeTokens ((", ".intercalate listed).toList ++ ':' :: after) with
  | nil =>
      rw [tokens] at reads
      cases reads
  | cons first others =>
      rw [tokens] at reads noDefault
      exact ⟨first, others, words, rfl, noDefault, reads, same⟩

end MiniVerilog.Source
