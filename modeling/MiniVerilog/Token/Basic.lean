/-! # Tokens

The reserved words the front end knows, the classes of tokens, a token with its
place in the source, and the brackets among the texts of tokens.
-/

namespace MiniVerilog

/-- The reserved words that are tokens of their own class. Every other reserved
word of the language is read as an identifier. -/
inductive Keyword where
  | module_ | endmodule | input | output | inout | wire | reg | always | assign
  | if_ | else_ | begin_ | end_ | posedge | negedge | parameter | localparam
  | case_ | endcase | default_ | function | endfunction | task | endtask
  | for_ | while_ | repeat_ | forever
  deriving DecidableEq, Repr

namespace Keyword

/-- The word as it is written in source text. -/
def spelling : Keyword → String
  | module_ => "module"
  | endmodule => "endmodule"
  | input => "input"
  | output => "output"
  | inout => "inout"
  | wire => "wire"
  | reg => "reg"
  | always => "always"
  | assign => "assign"
  | if_ => "if"
  | else_ => "else"
  | begin_ => "begin"
  | end_ => "end"
  | posedge => "posedge"
  | negedge => "negedge"
  | parameter => "parameter"
  | localparam => "localparam"
  | case_ => "case"
  | endcase => "endcase"
  | default_ => "default"
  | function => "function"
  | endfunction => "endfunction"
  | task => "task"
  | endtask => "endtask"
  | for_ => "for"
  | while_ => "while"
  | repeat_ => "repeat"
  | forever => "forever"

/-- Every reserved word once. -/
def all : List Keyword :=
  [module_, endmodule, input, output, inout, wire, reg, always, assign, if_, else_,
    begin_, end_, posedge, negedge, parameter, localparam, case_, endcase, default_,
    function, endfunction, task, endtask, for_, while_, repeat_, forever]

/-- The reserved word with the given spelling; case matters. -/
def ofSpelling? (word : String) : Option Keyword :=
  all.find? fun keyword => keyword.spelling = word

/-- The words that open a port declaration. -/
def isDirection : Keyword → Bool
  | input | output | inout => true
  | _ => false

end Keyword

/-- How much a text changes the depth of brackets, whatever their shape. -/
def bracketNesting (text : String) : Int :=
  if text == "(" || text == "[" || text == "\x7b" then 1
  else if text == ")" || text == "]" || text == "\x7d" then -1
  else 0

/-- The class of a token. -/
inductive TokenKind where
  /-- A reserved word. -/
  | keyword (word : Keyword)
  /-- A name, or a system name with its leading `$`. -/
  | identifier
  /-- A plain or based integer literal. -/
  | number
  /-- An operator or a punctuation mark. -/
  | operator
  /-- A quoted string with its quotes. -/
  | string
  /-- A comment with its delimiters. -/
  | comment
  deriving DecidableEq, Repr

/-- A piece of one source line with its class and its place, both counted
from 1. -/
structure Token where
  kind : TokenKind
  text : String
  line : Nat
  column : Nat
  deriving DecidableEq, Repr

namespace Token

/-- The token is the given reserved word. -/
def isKeyword (word : Keyword) (token : Token) : Bool :=
  token.kind == .keyword word

/-- The token is the operator or punctuation mark with the given text. -/
def isOperator (text : String) (token : Token) : Bool :=
  token.kind == .operator && token.text == text

/-- The token is a name. -/
def isIdentifier (token : Token) : Bool :=
  token.kind == .identifier

/-- How much the token changes the depth of brackets. A bracket inside a string does not. -/
def nesting (token : Token) : Int :=
  if token.kind == .operator then bracketNesting token.text else 0

end Token

end MiniVerilog
