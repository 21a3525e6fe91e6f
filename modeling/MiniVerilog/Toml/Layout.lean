/-! # Layout of TOML text

Blanks, comments and line ends. A reader gives the text after what it reads, or
nothing if the text does not start with that.
-/

namespace MiniVerilog.Toml

/-- A blank within a line. -/
def isBlank (c : Char) : Bool :=
  c == ' ' || c == '\t'

/-- A character that may stand in a comment: no control character but the
tabulator. -/
def isPlain (c : Char) : Bool :=
  c == '\t' || (0x20 ≤ c.toNat && c.toNat != 0x7F)

/-- The text after blanks. -/
def skipBlanks (cs : List Char) : List Char :=
  cs.dropWhile isBlank

/-- The text after a line end. -/
def lineEnd? : List Char → Option (List Char)
  | '\n' :: rest => some rest
  | '\r' :: '\n' :: rest => some rest
  | _ => none

/-- The text after a comment, if one starts here. -/
def skipComment : List Char → List Char
  | '#' :: rest => rest.dropWhile isPlain
  | cs => cs

/-- The text after blanks, an optional comment and the end of the line or of the
text. -/
def endOfLine? (cs : List Char) : Option (List Char) :=
  match skipComment (skipBlanks cs) with
  | [] => some []
  | rest => lineEnd? rest

/-- The text after blanks, comments and line ends. -/
def skipLayout : List Char → List Char
  | [] => []
  | '\r' :: '\n' :: rest => skipLayout rest
  | c :: rest =>
    if isBlank c || c == '\n' then skipLayout rest
    else if c == '#' then skipCommentLayout rest
    else c :: rest
where
  /-- The same inside a comment. -/
  skipCommentLayout : List Char → List Char
    | [] => []
    | '\r' :: '\n' :: rest => skipLayout rest
    | c :: rest =>
      if c == '\n' then skipLayout rest
      else if isPlain c then skipCommentLayout rest
      else c :: rest

/-- The text after a given one. -/
def after? (text : String) (cs : List Char) : Option (List Char) :=
  if text.toList.isPrefixOf cs then some (cs.drop text.length) else none

end MiniVerilog.Toml
