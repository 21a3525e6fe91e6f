import MiniVerilog.Number.Radix
import MiniVerilog.Text.Blank
import MiniVerilog.Text.Line
import MiniVerilog.Token.Basic

/-! # Scanning source text into tokens

Each line is cut into pieces from left to right. A piece starts at a character,
takes some of the characters after it, and is a token or is skipped; only the
knowledge that a block comment is still open passes from one line to the next.
A character that starts no token is skipped alone.
-/

namespace MiniVerilog

namespace Token

/-- The blanks that separate tokens on a line. -/
def isSeparator (c : Char) : Bool :=
  c == ' ' || c == '\t' || c == '\n' || c == '\x0c' || c == '\r'

/-- A character that starts a name. -/
def isNameStart (c : Char) : Bool :=
  c.isAlpha || c == '_'

/-- A character that continues a name. -/
def isNameChar (c : Char) : Bool :=
  c.isAlphanum || c == '_' || c == '$'

/-- The operators, each before the shorter ones it starts with. -/
def operators : List String :=
  ["===", "!==", "==", "!=", "<=", ">=", "&&", "||", "<<", ">>", "=", "&", "|", "^", "~",
    "+", "-", "*", "/", "!", "<", ">", "%", "?"]

/-- The punctuation marks, each a token of its own. -/
def punctuation : List Char :=
  ['(', ')', '[', ']', '\x7b', '\x7d', ';', ',', ':', '@', '#', '.']

/-- What starts at a character: the class of the token, if it is one, how many
of the following characters belong to it, and whether it leaves a block comment
open. -/
structure Piece where
  kind : Option TokenKind
  following : Nat
  opensComment : Bool := false
  deriving DecidableEq, Repr

/-- The number of characters up to and including the end of a block comment. -/
def commentLength? : List Char → Option Nat
  | [] => none
  | '*' :: '/' :: _ => some 2
  | _ :: rest => (commentLength? rest).map (· + 1)

/-- The number of characters that a string takes after its opening quote. A
backslash takes the next character with it, and a string without a closing quote
takes the whole line. -/
def stringLength : List Char → Nat
  | [] => 0
  | '"' :: _ => 1
  | '\\' :: _ :: rest => stringLength rest + 2
  | _ :: rest => stringLength rest + 1

/-- The number of characters after a tick that belong to the literal: a sign
mark, a base letter, and the characters the base admits. -/
def basedLength (cs : List Char) : Nat :=
  let marks := match cs with
    | c :: _ => if c == 's' || c == 'S' then 1 else 0
    | [] => 0
  match cs.drop marks with
  | [] => marks
  | letter :: digits =>
    match Radix.ofLetter? letter with
    | some radix => marks + 1 + (digits.takeWhile radix.admits).length
    | none => marks

/-- The number of characters that a literal takes after its first digit. -/
def numberLength (cs : List Char) : Nat :=
  let size := (cs.takeWhile fun c => c.isDigit || c == '_').length
  match cs.drop size with
  | '\'' :: mark :: rest =>
    if isBaseMark mark then size + 1 + basedLength (mark :: rest) else size
  | _ => size

/-- The class of a name: reserved words are told apart by their spelling. -/
def nameKind (name : List Char) : TokenKind :=
  match Keyword.ofSpelling? (String.ofList name) with
  | some word => .keyword word
  | none => .identifier

/-- The operator or punctuation mark at the front, or a skipped character. -/
def operatorPiece (first : Char) (rest : List Char) : Piece :=
  match operators.find? fun operator => operator.toList.isPrefixOf (first :: rest) with
  | some operator => ⟨some .operator, operator.length - 1, false⟩
  | none => ⟨if punctuation.contains first then some .operator else none, 0, false⟩

/-- The piece at the front of a line outside block comments. -/
def pieceAt (first : Char) (rest : List Char) : Piece :=
  if isSeparator first then ⟨none, 0, false⟩
  else if first == '/' && rest.head? == some '/' then ⟨some .comment, rest.length, false⟩
  else if first == '/' && rest.head? == some '*' then
    match commentLength? (rest.drop 1) with
    | some length => ⟨some .comment, length + 1, false⟩
    | none => ⟨some .comment, rest.length, true⟩
  else if isNameStart first || (first == '$' && rest.head?.any isNameStart) then
    let name := rest.takeWhile isNameChar
    ⟨some (nameKind (first :: name)), name.length, false⟩
  else if first.isDigit then ⟨some .number, numberLength rest, false⟩
  else if first == '\'' && rest.head?.any isBaseMark then
    ⟨some .number, basedLength rest, false⟩
  else if first == '"' then ⟨some .string, stringLength rest, false⟩
  else operatorPiece first rest

/-- The piece at the front of a line inside a block comment. A line that stays
inside the comment is a token unless it is blank. -/
def commentPiece (first : Char) (rest : List Char) : Piece :=
  match commentLength? (first :: rest) with
  | some length => ⟨some .comment, length - 1, false⟩
  | none =>
    ⟨if (first :: rest).all Text.isBlank then none else some .comment, rest.length, true⟩

/-- The tokens of the rest of a line that starts at the given column, and
whether a block comment is open at its end. -/
def scanFrom (line column : Nat) (inComment : Bool) : List Char → List Token × Bool
  | [] => ([], inComment)
  | first :: rest =>
    let piece := if inComment then commentPiece first rest else pieceAt first rest
    let (tokens, stillOpen) :=
      scanFrom line (column + 1 + piece.following) piece.opensComment
        (rest.drop piece.following)
    match piece.kind with
    | some kind =>
      (⟨kind, String.ofList (first :: rest.take piece.following), line, column⟩ :: tokens,
        stillOpen)
    | none => (tokens, stillOpen)
termination_by cs => cs.length
decreasing_by simp only [List.length_drop, List.length_cons]; omega

/-- The tokens of a line, and whether a block comment is open at its end. A line
whose first non-blank characters start a line comment is one token without the
blanks around it. -/
def scanLine (line : Nat) (inComment : Bool) (cs : List Char) : List Token × Bool :=
  let text := Text.trimStart cs
  if !inComment && ['/', '/'].isPrefixOf text then
    ([⟨.comment, String.ofList (Text.trimEnd text), line, cs.length - text.length + 1⟩], false)
  else scanFrom line 1 inComment cs

/-- The tokens of consecutive lines, the first of which has the given number. -/
def scanLines (line : Nat) (inComment : Bool) : List (List Char) → List Token
  | [] => []
  | cs :: following =>
    let (tokens, stillOpen) := scanLine line inComment cs
    tokens ++ scanLines (line + 1) stillOpen following

/-- The tokens of a source text, comments included. -/
def scan (source : String) : List Token :=
  scanLines 1 false (Text.lines source.toList)

end Token

end MiniVerilog
