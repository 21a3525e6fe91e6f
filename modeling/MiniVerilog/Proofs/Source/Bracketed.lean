import MiniVerilog.Proofs.Module.Frame
import MiniVerilog.Proofs.Source.Text

/-! # Procedural code with brackets around every body

Code is printed with `begin` and `end` around every body and one space between all
tokens. Whatever the nesting, the bodies and the texts of expressions, a module with
that code in an always block is read back as the same statement trees
(`MiniVerilog.Source.Code.ofSource?_printed`).
-/

namespace MiniVerilog.Source

/-- The marks that stand between the parts of statements. -/
def separators : List String :=
  ["(", ")", "[", "]", "\x7b", "\x7d", ";", ",", ":", "#"]

/-- A token of an expression: a name, a number or an operator of some source text that
does not stand between the parts of statements. -/
structure Atom where
  kind : TokenKind
  text : String
  isAtom : kind = .identifier ∨ kind = .number ∨ kind = .operator
  scanned : ∃ source, ∃ token ∈ Token.scan source, token.kind = kind ∧ token.text = text
  plain : text ∉ separators

/-- An expression: at least one token. -/
structure Phrase where
  first : Atom
  others : List Atom

/-- The name on the left of an assignment. The words that open a case statement are
not names here. -/
structure Target where
  text : String
  scanned : ∃ source, ∃ token ∈ Token.scan source, token.kind = .identifier ∧ token.text = text
  noCase : text ≠ "casex" ∧ text ≠ "casez"

/-- A statement to be printed. An alternative of a case statement has a first label and
others, and a default body without statements is not written. -/
inductive Code where
  | assign (target : Target) (blocking : Bool) (right : Phrase)
  | branch (condition : Phrase) (thenBody : List Code) (elseBody : Option (List Code))
  | select (subject : Phrase) (arms : List (Phrase × List Phrase × List Code))
      (otherwise : List Code)

/-- The token of an atom, without a place. -/
def Atom.token (atom : Atom) : Token :=
  ⟨atom.kind, atom.text, 0, 0⟩

namespace Phrase

/-- The tokens of an expression. -/
def atoms (phrase : Phrase) : List Atom :=
  phrase.first :: phrase.others

/-- The tokens of an expression, without places. -/
def tokens (phrase : Phrase) : List Token :=
  phrase.atoms.map Atom.token

/-- The words of an expression. -/
def words (phrase : Phrase) : List String :=
  phrase.atoms.map Atom.text

/-- The text of an expression. -/
def text (phrase : Phrase) : String :=
  joined phrase.words

end Phrase

/-- The token of a target, without a place. -/
def Target.token (target : Target) : Token :=
  ⟨.identifier, target.text, 0, 0⟩

namespace Code

mutual

/-- The tree of a statement. -/
def tree : Code → StatementTree
  | assign target blocking right => .assign target.text right.text blocking 0
  | branch condition thenBody none => .branch condition.text (trees thenBody) []
  | branch condition thenBody (some elseBody) =>
    .branch condition.text (trees thenBody) (trees elseBody)
  | select subject arms otherwise => .select subject.text (armTrees arms) (trees otherwise)

/-- The trees of the statements of a body. -/
def trees : List Code → List StatementTree
  | [] => []
  | code :: body => code.tree :: trees body

/-- The alternatives of a case statement. -/
def armTrees : List (Phrase × List Phrase × List Code) →
    List (List String × List StatementTree)
  | [] => []
  | (label, labels, body) :: arms =>
    ((label :: labels).map Phrase.text, trees body) :: armTrees arms

end

/-- The tokens of labels, with commas between them. -/
def labelTokens (label : Phrase) (labels : List Phrase) : List Token :=
  label.tokens ++ labels.flatMap fun label => mark "," :: label.tokens

mutual

/-- The tokens of a statement. -/
def tokens : Code → List Token
  | assign target blocking right =>
    target.token :: mark (if blocking then "=" else "<=") :: (right.tokens ++ [mark ";"])
  | branch condition thenBody none =>
    word .if_ :: mark "(" :: (condition.tokens ++ mark ")" :: word .begin_ ::
      (bodyTokens thenBody ++ [word .end_]))
  | branch condition thenBody (some elseBody) =>
    word .if_ :: mark "(" :: (condition.tokens ++ mark ")" :: word .begin_ ::
      (bodyTokens thenBody ++ word .end_ :: word .else_ :: word .begin_ ::
        (bodyTokens elseBody ++ [word .end_])))
  | select subject arms otherwise =>
    word .case_ :: mark "(" :: (subject.tokens ++ mark ")" :: (armTokens arms ++
      ((if otherwise.isEmpty then [] else
        word .default_ :: mark ":" :: word .begin_ :: (bodyTokens otherwise ++ [word .end_])) ++
      [word .endcase])))

/-- The tokens of the statements of a body. -/
def bodyTokens : List Code → List Token
  | [] => []
  | code :: body => code.tokens ++ bodyTokens body

/-- The tokens of the alternatives of a case statement. -/
def armTokens : List (Phrase × List Phrase × List Code) → List Token
  | [] => []
  | (label, labels, body) :: arms =>
    labelTokens label labels ++ mark ":" :: word .begin_ ::
      (bodyTokens body ++ word .end_ :: armTokens arms)

end

/-- A module with an always block around the code, with one space between its tokens. -/
def printed (body : List Code) : String :=
  joined ((frame "m" (bodyTokens body ++ [word .end_, word .endmodule])).map Token.text)

example : printed [] = "module m ( ) ; always @ ( * ) begin end endmodule" := by decide

end Code

namespace Atom

variable (atom : Atom)

theorem kind_ne_comment : atom.kind ≠ .comment := by
  intro comment
  obtain kind | kind | kind := atom.isAtom <;> rw [comment] at kind <;> cases kind

theorem kind_ne_string : atom.kind ≠ .string := by
  intro string
  obtain kind | kind | kind := atom.isAtom <;> rw [string] at kind <;> cases kind

/-- The text of an atom is a lexeme, since the lexer has read it in some source. -/
theorem isLexeme : Token.IsLexeme atom.kind atom.text := by
  obtain ⟨source, token, member, kind, text⟩ := atom.scanned
  rw [← kind, ← text]
  exact Token.isLexeme_of_mem_scan member (kind ▸ atom.kind_ne_comment)
    (kind ▸ atom.kind_ne_string)

theorem isWord : IsWord atom.text :=
  atom.isLexeme.isWord atom.kind_ne_comment atom.kind_ne_string

/-- The text of an atom is no comma and no bracket. -/
theorem isPlain : IsPlain atom.text := by
  have plain (other : String) (member : other ∈ separators) : (atom.text == other) = false :=
    beq_eq_false_iff_ne.mpr fun same => atom.plain (same ▸ member)
  refine ⟨fun same => atom.plain (same ▸ by decide), ?_⟩
  simp only [bracketNesting, plain "(" (by decide), plain "[" (by decide),
    plain "\x7b" (by decide), plain ")" (by decide), plain "]" (by decide),
    plain "\x7d" (by decide), Bool.or_self, Bool.false_eq_true, ↓reduceIte]

/-- An atom is no reserved word. -/
theorem isKeyword_token (keyword : Keyword) : atom.token.isKeyword keyword = false := by
  rw [Token.isKeyword, token, beq_eq_false_iff_ne]
  intro kind
  change atom.kind = .keyword keyword at kind
  obtain other | other | other := atom.isAtom <;> rw [kind] at other <;> cases other

/-- An atom is none of the marks between the parts of statements. -/
theorem isOperator_token {text : String} (member : text ∈ separators) :
    atom.token.isOperator text = false := by
  rw [Token.isOperator, Bool.and_eq_false_iff]
  refine .inr (beq_eq_false_iff_ne.mpr fun same => atom.plain ?_)
  change atom.text = text at same
  exact same ▸ member

/-- An atom does not change the depth of brackets. -/
theorem nesting_token : atom.token.nesting = 0 := by
  rw [Token.nesting]
  split
  · exact atom.isPlain.2
  · rfl

/-- An atom does not start with a parenthesis. -/
theorem head?_text : atom.text.toList.head? ≠ some '(' := by
  intro parenthesis
  have lexeme := atom.isLexeme
  unfold Token.IsLexeme at lexeme
  cases characters : atom.text.toList with
  | nil =>
      rw [characters] at parenthesis
      cases parenthesis
  | cons first rest =>
      rw [characters] at lexeme parenthesis
      obtain ⟨piece, -⟩ := lexeme
      cases parenthesis
      rw [Token.pieceAt_delimiter (by decide)] at piece
      have alone : rest = [] :=
        List.eq_nil_of_length_eq_zero (congrArg Token.Piece.following piece).symm
      rw [alone] at characters
      refine atom.plain ?_
      rw [← String.ofList_toList (s := atom.text), characters]
      decide

end Atom

/-- The tokens that are passed over on the way to the end of an expression. -/
def IsPassed (stop : Token → Bool) (token : Token) : Prop :=
  token.isKeyword .endmodule = false ∧ token.nesting = 0 ∧ stop token = false

/-- Everything before the token that ends an expression is taken. -/
theorem takeUntil_passed {stop : Token → Bool} {tokens : List Token}
    (passed : ∀ token ∈ tokens, IsPassed stop token) {last : Token} (stops : stop last = true)
    (after : List Token) :
    takeUntil stop 0 (tokens ++ last :: after) = (tokens.map Token.text, last :: after) := by
  induction tokens with
  | nil => exact takeUntil_stop stops after
  | cons token tokens ih =>
      obtain ⟨noEnd, nesting, noStop⟩ := passed token List.mem_cons_self
      have others := ih fun other member => passed other (List.mem_cons_of_mem _ member)
      rw [List.cons_append, takeUntil, noEnd, noStop, Bool.and_false, Bool.or_false,
        if_neg Bool.false_ne_true, nesting, Int.add_zero, others]
      rfl

namespace Phrase

variable (phrase : Phrase)

theorem text_tokens : phrase.tokens.map Token.text = phrase.words := by
  rw [tokens, List.map_map]
  rfl

theorem isWord : ∀ word ∈ phrase.words, IsWord word := by
  intro word member
  obtain ⟨atom, _, rfl⟩ := List.mem_map.mp member
  exact atom.isWord

theorem isPlain : ∀ word ∈ phrase.words, IsPlain word := by
  intro word member
  obtain ⟨atom, _, rfl⟩ := List.mem_map.mp member
  exact atom.isPlain

/-- The text of an expression is kept as it is. -/
theorem unwrap_text : unwrap (joined phrase.words) = phrase.text := by
  apply unwrap_joined phrase.isWord
  intro word first
  cases first
  exact phrase.first.head?_text

/-- The tokens of an expression are passed over on the way to the token that ends it. -/
theorem isPassed {stop : Token → Bool} (noStop : ∀ atom : Atom, stop atom.token = false) :
    ∀ token ∈ phrase.tokens, IsPassed stop token := by
  intro token member
  obtain ⟨atom, _, rfl⟩ := List.mem_map.mp member
  exact ⟨atom.isKeyword_token .endmodule, atom.nesting_token, noStop atom⟩

/-- A condition or a subject in parentheses. -/
theorem takeParenthesised_tokens (after : List Token) :
    takeParenthesised (mark "(" :: (phrase.tokens ++ mark ")" :: after)) =
      (phrase.words, after) := by
  have noStop (atom : Atom) : atom.token.isOperator ")" = false :=
    atom.isOperator_token (by decide)
  have taken := takeUntil_passed (phrase.isPassed noStop) (show (mark ")").isOperator ")" from rfl)
    after
  rw [phrase.text_tokens] at taken
  exact takeParenthesised_mark taken

/-- The right side of an assignment. -/
theorem takeRightSide_tokens (after : List Token) :
    takeRightSide (phrase.tokens ++ mark ";" :: after) = (phrase.text, after) := by
  have noStop (atom : Atom) : endsAssignment atom.token = false := by
    rw [endsAssignment, atom.isOperator_token (by decide), atom.isKeyword_token,
      atom.isKeyword_token, Bool.or_self, Bool.or_self]
  have noDelay : headIs (Token.isOperator "#") (phrase.tokens ++ mark ";" :: after) = false :=
    phrase.first.isOperator_token (by decide)
  have taken := takeUntil_passed (phrase.isPassed noStop) (show endsAssignment (mark ";") from rfl)
    after
  rw [phrase.text_tokens] at taken
  rw [takeRightSide_mark noDelay taken, expression, phrase.unwrap_text]

end Phrase

namespace Code

/-- The labels of an alternative are told apart. -/
theorem takeUntil_labelTokens (label : Phrase) (labels : List Phrase) (after : List Token) :
    ∃ words, takeUntil endsLabels 0 (labelTokens label labels ++ mark ":" :: after) =
        (words, mark ":" :: after) ∧
      Source.labels words = (label :: labels).map Phrase.text := by
  have noStop (atom : Atom) : endsLabels atom.token = false := by
    rw [endsLabels, atom.isOperator_token (by decide), atom.isKeyword_token,
      atom.isKeyword_token, Bool.or_self, Bool.or_self]
  have passed : ∀ token ∈ labelTokens label labels, IsPassed endsLabels token := by
    intro token member
    obtain first | others := List.mem_append.mp member
    · exact label.isPassed noStop token first
    · obtain ⟨other, _, inside⟩ := List.mem_flatMap.mp others
      obtain rfl | inside := List.mem_cons.mp inside
      · exact ⟨rfl, rfl, rfl⟩
      · exact other.isPassed noStop token inside
  have texts : (labelTokens label labels).map Token.text =
      separated label.words (labels.map Phrase.words) := by
    rw [labelTokens, List.map_append, label.text_tokens, separated, List.map_flatMap,
      List.flatMap_map]
    simp only [List.map_cons, Phrase.text_tokens]
    rfl
  refine ⟨separated label.words (labels.map Phrase.words), ?_, ?_⟩
  · rw [← texts]
    exact takeUntil_passed passed rfl after
  · have groups : label.words :: labels.map Phrase.words = (label :: labels).map Phrase.words := rfl
    rw [labels_separated, groups, List.map_map]
    · rfl
    · intro group member word inside
      rw [groups] at member
      obtain ⟨phrase, _, rfl⟩ := List.mem_map.mp member
      exact phrase.isPlain word inside
    · intro group member
      rw [groups] at member
      obtain ⟨phrase, _, rfl⟩ := List.mem_map.mp member
      exact List.cons_ne_nil _ _

/-- Every printed statement starts with a token that opens a statement. -/
theorem headIs_tokens (code : Code) (after : List Token) :
    headIs opensStatement (code.tokens ++ after) = true := by
  match code with
  | assign target blocking right => rw [tokens]; rfl
  | branch condition thenBody none => rw [tokens]; rfl
  | branch condition thenBody (some elseBody) => rw [tokens]; rfl
  | select subject arms otherwise => rw [tokens]; rfl

/-- A body starts with a statement or its end. -/
theorem headIs_bodyTokens (body : List Code) (after : List Token) :
    headIs (Token.isOperator ":") (bodyTokens body ++ word .end_ :: after) = false ∧
      headIs (Token.isKeyword .else_) (bodyTokens body ++ word .end_ :: after) = false := by
  cases body with
  | nil => exact ⟨rfl, rfl⟩
  | cons code body =>
      rw [bodyTokens, List.append_assoc]
      obtain ⟨noColon, noElse, -, -⟩ := headIs_eq_false_of_opens (code.headIs_tokens _)
      exact ⟨noColon, noElse⟩

/-- The brackets of a body and its statements. -/
theorem StatementReads.bracketed {body : List Code} {trees : List StatementTree}
    {after : List Token} (reads : BlockReads (bodyTokens body ++ word .end_ :: after) trees after) :
    StatementReads (word .begin_ :: (bodyTokens body ++ word .end_ :: after)) trees after :=
  StatementReads.block reads (headIs_bodyTokens body after).1

mutual

/-- **A printed statement is read back** before anything but an `else`. -/
theorem reads (code : Code) {after : List Token}
    (noElse : headIs (Token.isKeyword .else_) after = false) :
    StatementReads (code.tokens ++ after) [code.tree] after := by
  match code with
  | assign target blocking right =>
      have name : isCaseVariant target.token = false := by
        rw [isCaseVariant, Bool.or_eq_false_iff]
        exact ⟨beq_eq_false_iff_ne.mpr target.noCase.1, beq_eq_false_iff_ne.mpr target.noCase.2⟩
      have read := StatementReads.assign rfl name blocking (right.takeRightSide_tokens after)
      simp only [tokens, tree, List.cons_append, List.append_assoc, List.nil_append]
      exact read
  | branch condition thenBody none =>
      have thenPart := StatementReads.bracketed (bodyReads thenBody after)
      have read := StatementReads.branch (condition.takeParenthesised_tokens _) thenPart noElse
      rw [condition.unwrap_text] at read
      simpa only [tokens, tree, List.cons_append, List.append_assoc, List.nil_append] using read
  | branch condition thenBody (some elseBody) =>
      have elsePart := StatementReads.bracketed (bodyReads elseBody after)
      have thenPart := StatementReads.bracketed (bodyReads thenBody
        (word .else_ :: word .begin_ :: (bodyTokens elseBody ++ word .end_ :: after)))
      have read := StatementReads.branch_else (condition.takeParenthesised_tokens _) thenPart
        elsePart
      rw [condition.unwrap_text] at read
      simpa only [tokens, tree, List.cons_append, List.append_assoc, List.nil_append] using read
  | select subject arms otherwise =>
      have items : ItemsRead (armTokens arms ++ ((if otherwise.isEmpty then [] else
          word .default_ :: mark ":" :: word .begin_ :: (bodyTokens otherwise ++ [word .end_])) ++
            word .endcase :: after)) (armTrees arms) (trees otherwise) after := by
        apply armsRead arms
        cases otherwise with
        | nil => exact ItemsRead.endcase after
        | cons code body =>
            have default := ItemsRead.default
              (StatementReads.bracketed (bodyReads (code :: body) (word .endcase :: after)))
            simpa only [List.isEmpty_cons, Bool.false_eq_true, ↓reduceIte, List.cons_append,
              List.append_assoc, List.nil_append] using default
      have read := StatementReads.select (subject.takeParenthesised_tokens _) items
      rw [subject.unwrap_text] at read
      simpa only [tokens, tree, List.cons_append, List.append_assoc, List.nil_append] using read

/-- A printed body is read back up to the `end` of its block. -/
theorem bodyReads (body : List Code) (after : List Token) :
    BlockReads (bodyTokens body ++ word .end_ :: after) (trees body) after := by
  match body with
  | [] => exact BlockReads.end_ after
  | code :: body =>
      have statement := reads code (headIs_bodyTokens body after).2
      have following := bodyReads body after
      have read := BlockReads.cons (code.headIs_tokens _) statement following
      rw [bodyTokens, List.append_assoc]
      exact read

/-- Printed alternatives are read back before a default or the `endcase`. -/
theorem armsRead (arms : List (Phrase × List Phrase × List Code)) {rest last : List Token}
    {otherwise : List StatementTree} (items : ItemsRead rest [] otherwise last) :
    ItemsRead (armTokens arms ++ rest) (armTrees arms) otherwise last := by
  match arms with
  | [] => exact items
  | (label, labels, body) :: arms =>
      have following := armsRead arms items
      have statement := StatementReads.bracketed (bodyReads body (armTokens arms ++ rest))
      obtain ⟨words, labelled, texts⟩ := takeUntil_labelTokens label labels
        (word .begin_ :: (bodyTokens body ++ word .end_ :: (armTokens arms ++ rest)))
      have read :=
        ItemsRead.arm (label.first.isKeyword_token .default_) labelled statement following
      rw [texts] at read
      simp only [armTokens, armTrees, List.cons_append, List.append_assoc]
      exact read

end

/-- A token that is printed is a lexeme without a place, and no comment or string. -/
structure IsPrinted (token : Token) : Prop where
  bare : token.bare = token
  lexeme : Token.IsLexeme token.kind token.text
  noComment : token.kind ≠ .comment
  noString : token.kind ≠ .string

theorem isPrinted_word (keyword : Keyword) : IsPrinted (word keyword) :=
  ⟨rfl, Token.isLexeme_keyword keyword, nofun, nofun⟩

/-- A mark of the language is printed as itself. -/
theorem isPrinted_mark {text : String}
    (isMark : text ∈ Token.operators ++ Token.punctuation.map String.singleton) :
    IsPrinted (mark text) := by
  refine ⟨rfl, ?_, nofun, nofun⟩
  obtain operator | punctuation := List.mem_append.mp isMark
  · exact Token.isLexeme_operator text operator
  · obtain ⟨c, member, rfl⟩ := List.mem_map.mp punctuation
    exact Token.isLexeme_punctuation c member

theorem isPrinted_target (target : Target) : IsPrinted target.token := by
  obtain ⟨source, token, member, kind, text⟩ := target.scanned
  refine ⟨rfl, ?_, nofun, nofun⟩
  have lexeme := Token.isLexeme_of_mem_scan member (by rw [kind]; nofun) (by rw [kind]; nofun)
  rw [kind, text] at lexeme
  exact lexeme

theorem isPrinted_phrase (phrase : Phrase) : ∀ token ∈ phrase.tokens, IsPrinted token := by
  intro token member
  obtain ⟨atom, _, rfl⟩ := List.mem_map.mp member
  exact ⟨rfl, atom.isLexeme, atom.kind_ne_comment, atom.kind_ne_string⟩

/-- The tokens of labels and the commas between them are printed. -/
theorem isPrinted_labels (label : Phrase) (labels : List Phrase) :
    ∀ token ∈ labelTokens label labels, IsPrinted token := by
  intro token member
  obtain first | others := List.mem_append.mp member
  · exact isPrinted_phrase label token first
  · obtain ⟨other, _, inside⟩ := List.mem_flatMap.mp others
    obtain rfl | inside := List.mem_cons.mp inside
    · exact isPrinted_mark (by decide)
    · exact isPrinted_phrase other token inside

/-- All of these tokens are printed. -/
def ArePrinted (tokens : List Token) : Prop :=
  ∀ token ∈ tokens, IsPrinted token

theorem arePrinted_append {first others : List Token} :
    ArePrinted (first ++ others) ↔ ArePrinted first ∧ ArePrinted others :=
  List.forall_mem_append

theorem arePrinted_cons {first : Token} {others : List Token} :
    ArePrinted (first :: others) ↔ IsPrinted first ∧ ArePrinted others :=
  List.forall_mem_cons

theorem arePrinted_nil : ArePrinted [] :=
  fun _ member => (List.not_mem_nil member).elim

mutual

/-- **The tokens of a statement are printed**, at every depth. -/
theorem arePrinted_tokens (code : Code) : ArePrinted code.tokens := by
  have opening : IsPrinted (mark "(") := isPrinted_mark (by decide)
  have closing : IsPrinted (mark ")") := isPrinted_mark (by decide)
  match code with
  | assign target blocking right =>
      have sign : IsPrinted (mark (if blocking then "=" else "<=")) := by
        cases blocking <;> exact isPrinted_mark (by decide)
      have semicolon : IsPrinted (mark ";") := isPrinted_mark (by decide)
      rw [tokens, arePrinted_cons, arePrinted_cons, arePrinted_append, arePrinted_cons]
      exact ⟨isPrinted_target target, sign, isPrinted_phrase right, semicolon, arePrinted_nil⟩
  | branch condition thenBody none =>
      have body := arePrinted_bodyTokens thenBody
      simp only [tokens, arePrinted_append, arePrinted_cons, isPrinted_word, true_and]
      exact ⟨opening, isPrinted_phrase condition, closing, body, arePrinted_nil⟩
  | branch condition thenBody (some elseBody) =>
      have body := arePrinted_bodyTokens thenBody
      have alternative := arePrinted_bodyTokens elseBody
      simp only [tokens, arePrinted_append, arePrinted_cons, isPrinted_word, true_and]
      exact ⟨opening, isPrinted_phrase condition, closing, body, alternative, arePrinted_nil⟩
  | select subject arms otherwise =>
      have alternatives := arePrinted_armTokens arms
      have default : ArePrinted (if otherwise.isEmpty then [] else word .default_ :: mark ":" ::
          word .begin_ :: (bodyTokens otherwise ++ [word .end_])) := by
        have body := arePrinted_bodyTokens otherwise
        split
        · exact arePrinted_nil
        · simp only [arePrinted_append, arePrinted_cons, isPrinted_word, true_and]
          exact ⟨isPrinted_mark (by decide), body, arePrinted_nil⟩
      simp only [tokens, arePrinted_append, arePrinted_cons, isPrinted_word, true_and]
      exact ⟨opening, isPrinted_phrase subject, closing, alternatives, default, arePrinted_nil⟩

/-- The tokens of a body are printed. -/
theorem arePrinted_bodyTokens (body : List Code) : ArePrinted (bodyTokens body) := by
  match body with
  | [] => exact arePrinted_nil
  | code :: body =>
      exact arePrinted_append.mpr ⟨arePrinted_tokens code, arePrinted_bodyTokens body⟩

/-- The tokens of alternatives are printed. -/
theorem arePrinted_armTokens (arms : List (Phrase × List Phrase × List Code)) :
    ArePrinted (armTokens arms) := by
  match arms with
  | [] => exact arePrinted_nil
  | (label, labels, body) :: arms =>
      have statements := arePrinted_bodyTokens body
      have following := arePrinted_armTokens arms
      simp only [armTokens, arePrinted_append, arePrinted_cons, isPrinted_word, true_and]
      exact ⟨isPrinted_labels label labels, isPrinted_mark (by decide), statements, following⟩

end

/-- The tokens of the whole module are printed. -/
theorem arePrinted_frame (body : List Code) :
    ArePrinted (frame "m" (bodyTokens body ++ [word .end_, word .endmodule])) := by
  have name : IsPrinted ⟨.identifier, "m", 0, 0⟩ := ⟨rfl, by decide, nofun, nofun⟩
  simp only [frame, arePrinted_append, arePrinted_cons, isPrinted_word, true_and]
  refine ⟨name, ?_, ?_, ?_, ?_, ?_, ?_, ?_, arePrinted_bodyTokens body, arePrinted_nil⟩ <;>
    exact isPrinted_mark (by decide)

/-- The printed text is scanned as the tokens that were printed. -/
theorem scan_printed (body : List Code) :
    (Token.scan (printed body)).map Token.bare =
      frame "m" (bodyTokens body ++ [word .end_, word .endmodule]) := by
  have tokens := arePrinted_frame body
  have oneLine : '\n' ∉ (printed body).toList := by
    refine not_mem_joined (by decide) fun text member feed => ?_
    obtain ⟨token, printed, rfl⟩ := List.mem_map.mp member
    have token := tokens token printed
    have noBlank := token.lexeme.not_isBlank token.noComment token.noString '\n' feed
    exact absurd noBlank (by decide)
  have isWord : IsWord "module" := by decide
  have start : (printed body).toList.head? = some 'm' := head?_joined isWord _
  have noComment : ['/', '/'].isPrefixOf (Text.trimStart (printed body).toList) = false := by
    obtain ⟨rest, text⟩ := List.head?_eq_some_iff.mp start
    rw [text]
    rfl
  rw [Token.bare_scan oneLine noComment]
  exact Token.bareTokens_joined fun token member =>
    ⟨(tokens token member).bare, (tokens token member).lexeme⟩

/-- **Code with brackets around every body is read back.** The module has exactly one
always block, and its statements are the printed ones up to their lines. -/
theorem ofSource?_printed (body : List Code) :
    ∃ module block, Module.ofSource? (printed body) = some module ∧
      module.alwaysBlocks = [block] ∧
      (module.trees block.body).map StatementTree.bare = trees body := by
  have scanned : ((Token.scan (printed body)).filter fun token => token.kind != .comment).map
      Token.bare = frame "m" (bodyTokens body ++ [word .end_, word .endmodule]) := by
    rw [← scan_printed, List.filter_eq_self.mpr]
    intro token member
    have printed := arePrinted_frame body token.bare (by
      rw [← scan_printed]
      exact List.mem_map_of_mem member)
    exact bne_iff_ne.mpr printed.noComment
  have reads := StatementReads.bracketed (bodyReads body [word .endmodule])
  exact Module.exists_of_frame scanned reads

end Code

end MiniVerilog.Source
