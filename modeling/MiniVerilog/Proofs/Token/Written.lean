import MiniVerilog.Proofs.Text.Words
import MiniVerilog.Proofs.Token.Continued

/-! # Lines that are written from parts

A line that is put together from lexemes and from marks between them is cut into just these
again (`MiniVerilog.Token.scanFrom_spelled`), and so is a text of such lines
(`MiniVerilog.Token.scanLines_spelled`).
-/

namespace MiniVerilog.Token

/-- The characters that are a piece of their own whatever comes next: the space, and operators
and punctuation marks that start no longer operator. -/
def lonely : List Char :=
  ' ' :: '~' :: punctuation

/-- A character that starts no longer operator is a piece of its own: a space is none, and any other
one is an operator. -/
theorem pieceAt_lonely {c : Char} (member : c ∈ lonely) (rest : List Char) :
    pieceAt c rest = ⟨if c = ' ' then none else some .operator, 0, false⟩ := by
  have tilde : pieceAt '~' rest = ⟨some .operator, 0, false⟩ := rfl
  have marks : ∀ c ∈ punctuation, c ≠ ' ' ∧ punctuation.contains c = true :=
    List.all_iff_forall_prop.mp (by decide)
  rcases List.mem_cons.mp member with rfl | others
  · rfl
  · rcases List.mem_cons.mp others with rfl | mark
    · exact tilde
    · obtain ⟨noSpace, isMark⟩ := marks c mark
      rw [pieceAt_delimiter (List.mem_append_right blanks mark), isMark, if_neg noSpace]
      rfl

/-- A part of a line as it is written. -/
inductive Part where
  | lexeme (kind : TokenKind) (text : String)
  | mark (c : Char)

namespace Part

/-- The text of a part. -/
def characters : Part → List Char
  | lexeme _ text => text.toList
  | mark c => [c]

/-- The token a part is read as, if it is no space. -/
def token? (line column : Nat) : Part → Option Token
  | lexeme kind text => some ⟨kind, text, line, column⟩
  | mark c => if c = ' ' then none else some ⟨.operator, String.singleton c, line, column⟩

/-- A space. -/
def space : Part :=
  mark ' '

/-- A reserved word. -/
def keyword (word : Keyword) : Part :=
  lexeme (.keyword word) word.spelling

end Part

/-- The text of a line. -/
def spelled (parts : List Part) : List Char :=
  parts.flatMap Part.characters

theorem spelled_append (front back : List Part) :
    spelled (front ++ back) = spelled front ++ spelled back :=
  List.flatMap_append

/-- The tokens of a line from a column on. -/
def tokensAt (line column : Nat) : List Part → List Token
  | [] => []
  | part :: parts =>
    (part.token? line column).toList ++ tokensAt line (column + part.characters.length) parts

/-- The columns of a second text go on after the first one. -/
theorem tokensAt_append (line column : Nat) (front back : List Part) :
    tokensAt line column (front ++ back) =
      tokensAt line column front ++ tokensAt line (column + (spelled front).length) back := by
  induction front generalizing column with
  | nil => rfl
  | cons part front ih =>
      rw [List.cons_append, tokensAt, tokensAt, ih, List.append_assoc, Nat.add_assoc,
        ← List.length_append]
      rfl

/-- A text that is read as one token of a kind before a delimiter, and starts no comment. -/
structure IsSolid (kind : TokenKind) (text : String) : Prop where
  lexeme : IsLexeme kind text
  noQuote : ¬ IsQuoted kind
  noSlash : '/' ∉ text.toList

instance (kind : TokenKind) : Decidable (IsQuoted kind) :=
  inferInstanceAs (Decidable (_ ∨ _))

instance (kind : TokenKind) (text : String) : Decidable (IsSolid kind text) :=
  decidable_of_iff (IsLexeme kind text ∧ ¬ IsQuoted kind ∧ '/' ∉ text.toList)
    ⟨fun ⟨lexeme, noQuote, noSlash⟩ => ⟨lexeme, noQuote, noSlash⟩,
      fun solid => ⟨solid.lexeme, solid.noQuote, solid.noSlash⟩⟩

theorem isSolid_keyword (keyword : Keyword) : IsSolid (.keyword keyword) keyword.spelling := by
  cases keyword <;> decide

/-- Parts of which each is told apart from the next. -/
def Written : List Part → Prop
  | [] => True
  | .lexeme kind text :: parts => IsSolid kind text ∧ Delimited (spelled parts) ∧ Written parts
  | .mark c :: parts => c ∈ lonely ∧ Written parts

instance : (text : List Char) → Decidable (Delimited text)
  | [] => .isTrue .nil
  | c :: rest =>
    decidable_of_iff (c ∈ delimiters)
      ⟨fun delimiter => .cons delimiter rest, fun delimited => delimited c rfl⟩

instance decidableWritten : (parts : List Part) → Decidable (Written parts)
  | [] => .isTrue trivial
  | .lexeme kind text :: parts =>
    have := decidableWritten parts
    inferInstanceAs (Decidable (IsSolid kind text ∧ Delimited (spelled parts) ∧ Written parts))
  | .mark c :: parts =>
    have := decidableWritten parts
    inferInstanceAs (Decidable (c ∈ lonely ∧ Written parts))

section Cons

variable {kind : TokenKind} {text : String} {c : Char} {parts : List Part}

theorem Written.space (written : Written parts) : Written (.space :: parts) :=
  ⟨by decide, written⟩

theorem Written.mark (written : Written parts) (isMark : c ∈ punctuation) :
    Written (.mark c :: parts) :=
  ⟨List.mem_cons_of_mem _ (List.mem_cons_of_mem _ isMark), written⟩

/-- A lexeme at the end of a line. -/
theorem IsSolid.last (solid : IsSolid kind text) : Written [.lexeme kind text] :=
  ⟨solid, .nil, trivial⟩

theorem IsSolid.before_space (solid : IsSolid kind text) (written : Written parts) :
    Written (.lexeme kind text :: .space :: parts) :=
  ⟨solid, .cons (by decide) _, written.space⟩

theorem IsSolid.before_mark (solid : IsSolid kind text) (isMark : c ∈ punctuation)
    (written : Written parts) : Written (.lexeme kind text :: .mark c :: parts) :=
  ⟨solid, .cons (List.mem_append_right blanks isMark) _, written.mark isMark⟩

end Cons

/-- Parts that do not end in a lexeme. -/
def Closed (parts : List Part) : Prop :=
  ∀ kind text, parts.getLast? ≠ some (.lexeme kind text)

/-- A text that starts with a delimiter still does so when more is added. -/
theorem Delimited.append {front back : List Char} (delimited : Delimited front)
    (nonempty : front ≠ []) : Delimited (front ++ back) := by
  cases front with
  | nil => exact (nonempty rfl).elim
  | cons c front => exact delimited

/-- A lexeme has a character at least. -/
theorem IsLexeme.ne_nil {kind : TokenKind} {text : String} (lexeme : IsLexeme kind text) :
    text.toList ≠ [] := by
  intro empty
  unfold IsLexeme at lexeme
  rw [empty] at lexeme
  exact lexeme

/-- Parts are spelled with a character at least. -/
theorem Written.spelled_ne_nil {parts : List Part} (written : Written parts) (some : parts ≠ []) :
    spelled parts ≠ [] := by
  cases parts with
  | nil => exact (some rfl).elim
  | cons part parts =>
      refine List.append_ne_nil_of_left_ne_nil ?_ _
      cases part with
      | lexeme kind text => exact written.1.lexeme.ne_nil
      | mark c => exact List.cons_ne_nil c []

/-- **Parts that end in no lexeme can be followed by any parts.** The induction is on the parts
before. -/
theorem Written.append {front back : List Part} (first : Written front) (closed : Closed front)
    (second : Written back) : Written (front ++ back) := by
  induction front with
  | nil => exact second
  | cons part front ih =>
      cases front with
      -- Only the last part of the front meets what comes after it, and that is a mark.
      | nil =>
          cases part with
          | lexeme kind text => exact (closed kind text rfl).elim
          | mark c => exact ⟨first.1, second⟩
      | cons next front =>
          have others : Closed (next :: front) := by
            intro kind text last
            refine closed kind text ?_
            rw [List.getLast?_cons_cons, last]
          cases part with
          | lexeme kind text =>
              obtain ⟨solid, delimited, rest⟩ := first
              have goesOn : Delimited (spelled (next :: front ++ back)) := by
                rw [spelled_append]
                exact delimited.append (rest.spelled_ne_nil (List.cons_ne_nil next front))
              exact ⟨solid, goesOn, ih rest others⟩
          | mark c => exact ⟨first.1, ih first.2 others⟩

/-- Spaces side by side. -/
def spaces (size : Nat) : List Part :=
  List.replicate size .space

theorem spelled_spaces (size : Nat) : spelled (spaces size) = List.replicate size ' ' := by
  induction size with
  | zero => rfl
  | succ size ih => exact congrArg (' ' :: ·) ih

/-- Spaces before parts leave them told apart. -/
theorem Written.spaces_append {parts : List Part} (written : Written parts) (size : Nat) :
    Written (spaces size ++ parts) := by
  induction size with
  | zero => exact written
  | succ size ih => exact ih.space

/-- Scanning takes one piece off the front of a line, and a token if the piece is one. -/
theorem scanFrom_piece (line column : Nat) {first : Char} {rest : List Char}
    {kind : Option TokenKind} {following : Nat}
    (piece : pieceAt first rest = ⟨kind, following, false⟩) :
    scanFrom line column false (first :: rest) =
      ((kind.map fun kind => ⟨kind, String.ofList (first :: rest.take following), line,
          column⟩).toList ++ (scanFrom line (column + 1 + following) false (rest.drop following)).1,
        (scanFrom line (column + 1 + following) false (rest.drop following)).2) := by
  rw [scanFrom]
  simp only [Bool.false_eq_true, ↓reduceIte, piece]
  cases kind <;> rfl

/-- **A lexeme before a delimiter is one token**, whatever comes after the delimiter. -/
theorem IsLexeme.scanFrom_append {kind : TokenKind} {text : String} (lexeme : IsLexeme kind text)
    {after : List Char} (delimited : Delimited after) (line column : Nat) :
    scanFrom line column false (text.toList ++ after) =
      (⟨kind, text, line, column⟩ ::
          (scanFrom line (column + text.toList.length) false after).1,
        (scanFrom line (column + text.toList.length) false after).2) := by
  unfold IsLexeme at lexeme
  cases characters : text.toList with
  | nil =>
      rw [characters] at lexeme
      exact lexeme.elim
  | cons first rest =>
      rw [characters] at lexeme
      obtain ⟨piece, ends⟩ := lexeme
      have whole : pieceAt first (rest ++ after) = ⟨some kind, rest.length, false⟩ := by
        rw [pieceAt_append ends delimited, piece]
      rw [List.cons_append, scanFrom_piece line column whole, List.drop_left, List.take_left,
        ← characters, String.ofList_toList, characters, List.length_cons, Nat.add_assoc,
        Nat.add_comm 1]
      rfl

/-- **A line is cut into the parts it is written from.** -/
theorem scanFrom_spelled {parts : List Part} (written : Written parts) (line column : Nat) :
    scanFrom line column false (spelled parts) = (tokensAt line column parts, false) := by
  induction parts generalizing column with
  | nil => exact scanFrom_nil line column false
  | cons part parts ih =>
      cases part with
      | lexeme kind text =>
          obtain ⟨solid, delimited, rest⟩ := written
          change scanFrom line column false (text.toList ++ spelled parts) = _
          rw [solid.lexeme.scanFrom_append delimited, ih rest]
          rfl
      | mark c =>
          obtain ⟨member, rest⟩ := written
          change scanFrom line column false (c :: spelled parts) = _
          rw [scanFrom_piece line column (pieceAt_lonely member _), List.drop_zero, ih rest,
            tokensAt, Part.token?]
          by_cases space : c = ' '
          · rw [if_pos space, if_pos space]
            rfl
          · rw [if_neg space, if_neg space]
            rfl

/-- The characters of a line: the space is its only blank, and no comment starts. -/
theorem Written.mem_spelled {parts : List Part} (written : Written parts) :
    ∀ c ∈ spelled parts, c ≠ '/' ∧ (Text.isBlank c = true → c = ' ') := by
  have marks : ∀ c ∈ lonely, c ≠ '/' ∧ (Text.isBlank c = true → c = ' ') :=
    List.all_iff_forall_prop.mp (by decide)
  induction parts with
  | nil => exact List.forall_mem_nil _
  | cons part parts ih =>
      cases part with
      | lexeme kind text =>
          obtain ⟨solid, -, rest⟩ := written
          refine List.forall_mem_append.mpr ⟨fun c member => ⟨?_, fun blank => ?_⟩, ih rest⟩
          · rintro rfl
            exact solid.noSlash member
          · obtain ⟨noComment, noString⟩ := not_or.mp solid.noQuote
            rw [solid.lexeme.not_isBlank noComment noString c member] at blank
            cases blank
      | mark c => exact List.forall_mem_cons.mpr ⟨marks c written.1, ih written.2⟩

/-- **A line that is written from parts is scanned into their tokens**, and leaves no comment open.
The case of a line comment does not occur, as no part starts one. -/
theorem scanLine_spelled {parts : List Part} (written : Written parts) (line : Nat) :
    scanLine line false (spelled parts) = (tokensAt line 1 parts, false) := by
  have noComment : ['/', '/'].isPrefixOf (Text.trimStart (spelled parts)) = false := by
    rw [Bool.eq_false_iff]
    intro comment
    obtain ⟨rest, start⟩ := List.isPrefixOf_iff_prefix.mp comment
    have slash : '/' ∈ Text.trimStart (spelled parts) := start ▸ List.mem_cons_self
    exact (written.mem_spelled '/' ((List.dropWhile_suffix _).subset slash)).1 rfl
  simp only [scanLine, noComment, Bool.and_false, Bool.false_eq_true, ↓reduceIte]
  exact scanFrom_spelled written line 1

/-- The tokens of lines with numbers from `start` on. -/
def tokensOfLines (start : Nat) : List (List Part) → List Token
  | [] => []
  | parts :: following => tokensAt start 1 parts ++ tokensOfLines (start + 1) following

/-- The numbers of later lines go on after the first ones. -/
theorem tokensOfLines_append (start : Nat) (before after : List (List Part)) :
    tokensOfLines start (before ++ after) =
      tokensOfLines start before ++ tokensOfLines (start + before.length) after := by
  induction before generalizing start with
  | nil => rfl
  | cons parts before ih =>
      rw [List.cons_append, tokensOfLines, tokensOfLines, ih, List.append_assoc, List.length_cons,
        Nat.add_assoc, Nat.add_comm 1]

/-- **Lines are cut into the parts they are written from.** -/
theorem scanLines_spelled {lines : List (List Part)} (written : ∀ parts ∈ lines, Written parts)
    (start : Nat) : scanLines start false (lines.map spelled) = tokensOfLines start lines := by
  induction lines generalizing start with
  | nil => rfl
  | cons parts lines ih =>
      obtain ⟨first, others⟩ := List.forall_mem_cons.mp written
      rw [List.map_cons, scanLines_cons, scanLine_spelled first, ih others, tokensOfLines]

/-- The only blanks of lines that are written from parts are spaces. -/
theorem isLine_of_spelled {texts : List String} {lines : List (List Part)}
    (spelling : texts.map String.toList = lines.map spelled)
    (written : ∀ parts ∈ lines, Written parts) : ∀ text ∈ texts, Text.IsLine text := by
  intro text member c inside
  have known : text.toList ∈ lines.map spelled := spelling ▸ List.mem_map_of_mem member
  obtain ⟨parts, inLines, same⟩ := List.mem_map.mp known
  rw [← same] at inside
  exact ((written parts inLines).mem_spelled c inside).2

/-- The lines of a text that is put together from lines. -/
theorem lines_join {texts : List String} (areLines : ∀ text ∈ texts, Text.IsLine text) :
    Text.lines (String.join (texts.map (· ++ "\n"))).toList = texts.map String.toList := by
  have read := congrArg (List.map String.toList) (Text.linesOf_join areLines)
  have inverse : String.toList ∘ String.ofList = id := funext fun _ => String.toList_ofList
  rwa [Text.linesOf, List.map_map, inverse, List.map_id] at read

/-- No part is a comment. -/
theorem kind_of_mem_tokensAt {parts : List Part} (written : Written parts) {line column : Nat}
    {token : Token} (member : token ∈ tokensAt line column parts) : token.kind ≠ .comment := by
  induction parts generalizing column with
  | nil => cases member
  | cons part parts ih =>
      rcases List.mem_append.mp member with here | later
      · cases part with
        | lexeme kind text =>
            obtain rfl := List.mem_singleton.mp here
            exact (not_or.mp written.1.noQuote).1
        | mark c =>
            rw [Part.token?] at here
            split at here
            · cases here
            · obtain rfl := List.mem_singleton.mp here
              exact fun same => nomatch same
      · cases part with
        | lexeme kind text => exact ih written.2.2 later
        | mark c => exact ih written.2 later

/-- No part is read as a comment. -/
theorem kind_of_mem_tokensOfLines {lines : List (List Part)}
    (written : ∀ parts ∈ lines, Written parts) {start : Nat} {token : Token}
    (member : token ∈ tokensOfLines start lines) : token.kind ≠ .comment := by
  induction lines generalizing start with
  | nil => cases member
  | cons parts lines ih =>
      obtain ⟨first, others⟩ := List.forall_mem_cons.mp written
      rcases List.mem_append.mp member with here | later
      · exact kind_of_mem_tokensAt first here
      · exact ih others later

/-- Leaving out comments leaves out nothing. -/
theorem filter_tokensOfLines {lines : List (List Part)} (written : ∀ parts ∈ lines, Written parts)
    (start : Nat) : (tokensOfLines start lines).filter (fun token => token.kind != .comment) =
      tokensOfLines start lines :=
  List.filter_eq_self.mpr fun _ member =>
    bne_iff_ne.mpr (kind_of_mem_tokensOfLines written member)

/-- **A text of lines that are written has no other tokens than their parts.** -/
theorem filter_scan_spelled {texts : List String} {lines : List (List Part)}
    (spelling : texts.map String.toList = lines.map spelled)
    (written : ∀ parts ∈ lines, Written parts) :
    (scan (String.join (texts.map (· ++ "\n")))).filter (fun token => token.kind != .comment) =
      tokensOfLines 1 lines := by
  rw [scan, lines_join (isLine_of_spelled spelling written), spelling, scanLines_spelled written,
    filter_tokensOfLines written]

/-- The tokens of a line without their places. -/
def tokensOf : List Part → List Token
  | [] => []
  | part :: parts => (part.token? 0 0).toList ++ tokensOf parts

/-- Where the parts stand does not matter for their tokens without places. -/
theorem bare_tokensAt (line column : Nat) (parts : List Part) :
    (tokensAt line column parts).map bare = tokensOf parts := by
  induction parts generalizing column with
  | nil => rfl
  | cons part parts ih =>
      rw [tokensAt, tokensOf, List.map_append, ih]
      cases part with
      | lexeme kind text => rfl
      | mark c =>
          rw [Part.token?, Part.token?]
          split <;> rfl

theorem tokensOf_append (front back : List Part) :
    tokensOf (front ++ back) = tokensOf front ++ tokensOf back := by
  induction front with
  | nil => rfl
  | cons part front ih => rw [List.cons_append, tokensOf, tokensOf, ih, List.append_assoc]

theorem tokensOf_spaces (size : Nat) : tokensOf (spaces size) = [] := by
  induction size with
  | zero => rfl
  | succ size ih => exact ih

/-- Lines that are written with these tokens. -/
def AreWritten (texts : List String) (tokens : List Token) : Prop :=
  ∃ lines : List (List Part), texts.map String.toList = lines.map spelled ∧
    (∀ parts ∈ lines, Written parts) ∧ lines.flatMap tokensOf = tokens

namespace AreWritten

variable {texts : List String} {tokens : List Token}

theorem nil : AreWritten [] [] :=
  ⟨[], rfl, List.forall_mem_nil _, rfl⟩

theorem single {text : String} {parts : List Part} (spelling : text.toList = spelled parts)
    (written : Written parts) : AreWritten [text] (tokensOf parts) :=
  ⟨[parts], congrArg (· :: []) spelling, List.forall_mem_singleton.mpr written,
    List.flatMap_singleton tokensOf parts⟩

/-- A line that starts with spaces. -/
theorem indented {text : String} {size : Nat} {parts : List Part}
    (spelling : text.toList = spelled (spaces size ++ parts)) (written : Written parts) :
    AreWritten [text] (tokensOf parts) := by
  have areWritten := single spelling (written.spaces_append size)
  rwa [tokensOf_append, tokensOf_spaces, List.nil_append] at areWritten

/-- Lines after lines are read as the tokens of both. -/
theorem append {others : List String} {following : List Token} (first : AreWritten texts tokens)
    (second : AreWritten others following) :
    AreWritten (texts ++ others) (tokens ++ following) := by
  obtain ⟨lines, spelling, written, rfl⟩ := first
  obtain ⟨more, otherSpelling, otherWritten, rfl⟩ := second
  refine ⟨lines ++ more, ?_, List.forall_mem_append.mpr ⟨written, otherWritten⟩,
    List.flatMap_append⟩
  rw [List.map_append, List.map_append, spelling, otherSpelling]

/-- One line for each entry of a list. -/
theorem map {α : Type} {entries : List α} {textOf : α → String} {tokensFor : α → List Token}
    (each : ∀ entry ∈ entries, AreWritten [textOf entry] (tokensFor entry)) :
    AreWritten (entries.map textOf) (entries.flatMap tokensFor) := by
  induction entries with
  | nil => exact nil
  | cons entry entries ih =>
      obtain ⟨first, others⟩ := List.forall_mem_cons.mp each
      exact first.append (ih others)

theorem isLine (areWritten : AreWritten texts tokens) : ∀ text ∈ texts, Text.IsLine text := by
  obtain ⟨lines, spelling, written, -⟩ := areWritten
  exact isLine_of_spelled spelling written

/-- **Lines that are written have the tokens they are written with.** -/
theorem bare_scanLines (areWritten : AreWritten texts tokens) (start : Nat) :
    ((scanLines start false (texts.map String.toList)).filter
      fun token => token.kind != .comment).map bare = tokens := by
  obtain ⟨lines, spelling, written, rfl⟩ := areWritten
  rw [spelling, scanLines_spelled written, filter_tokensOfLines written]
  clear spelling written
  induction lines generalizing start with
  | nil => rfl
  | cons parts lines ih =>
      rw [tokensOfLines, List.map_append, bare_tokensAt, ih, List.flatMap_cons]

end AreWritten

end MiniVerilog.Token
