import MiniVerilog.Decimal.Shortest

/-! # JSON values and their texts

A value is written on one line, or over several lines with two spaces for each
level. The members of an object are written in the order they are given.
-/

namespace MiniVerilog

/-- A JSON value. -/
inductive Json where
  | null
  | bool (value : Bool)
  | int (value : Int)
  | float (value : Float)
  | string (text : String)
  | array (items : List Json)
  | object (members : List (String × Json))

namespace Json

/-- A natural number. -/
def nat (value : Nat) : Json :=
  int value

/-- A list of texts. -/
def strings (texts : List String) : Json :=
  array (texts.map string)

/-- The lower-case hexadecimal digit of a number below 16. -/
def hexDigit (digit : Nat) : Char :=
  if digit < 10 then Char.ofNat ('0'.toNat + digit) else Char.ofNat ('a'.toNat + digit - 10)

/-- A character as it stands between quotes. Quotes, backslashes and control
characters are escaped. -/
def escape (c : Char) : List Char :=
  if c = '"' then ['\\', '"']
  else if c = '\\' then ['\\', '\\']
  else if c = '\x08' then ['\\', 'b']
  else if c = '\x0c' then ['\\', 'f']
  else if c = '\n' then ['\\', 'n']
  else if c = '\r' then ['\\', 'r']
  else if c = '\t' then ['\\', 't']
  else if c.toNat < 0x20 then
    ['\\', 'u', '0', '0', hexDigit (c.toNat / 16), hexDigit (c.toNat % 16)]
  else [c]

/-- A text between quotes. -/
def quote (text : String) : String :=
  "\"" ++ String.ofList (text.toList.flatMap escape) ++ "\""

/-- The text of a value that is neither an array nor an object. -/
def scalarText : Json → String
  | null => "null"
  | bool value => if value then "true" else "false"
  | int value => toString value
  | float value => Decimal.text value
  | string text => quote text
  | array _ => "[]"
  | object _ => "\x7b\x7d"

mutual

/-- The value on one line without spaces. -/
def compact : Json → String
  | array items => "[" ++ ",".intercalate (compactItems items) ++ "]"
  | object members => "\x7b" ++ ",".intercalate (compactMembers members) ++ "\x7d"
  | scalar => scalarText scalar

/-- The items of an array on one line each. -/
def compactItems : List Json → List String
  | [] => []
  | item :: items => compact item :: compactItems items

/-- The members of an object on one line each. -/
def compactMembers : List (String × Json) → List String
  | [] => []
  | (name, value) :: members => (quote name ++ ":" ++ compact value) :: compactMembers members

end

/-- A line end and the indentation of a level. -/
def newline (level : Nat) : String :=
  "\n" ++ String.ofList (List.replicate (2 * level) ' ')

/-- The parts of an array or an object on lines of their own between two
brackets. -/
def bracketed (level : Nat) (opening closing : String) (parts : List String) : String :=
  opening ++ newline (level + 1) ++ ("," ++ newline (level + 1)).intercalate parts ++
    newline level ++ closing

mutual

/-- The value over several lines, when its first line is already indented. -/
def prettyAt (level : Nat) : Json → String
  | array (item :: items) => bracketed level "[" "]" (prettyItems (level + 1) (item :: items))
  | object (member :: members) =>
    bracketed level "\x7b" "\x7d" (prettyMembers (level + 1) (member :: members))
  | scalar => scalarText scalar

/-- The items of an array over several lines. -/
def prettyItems (level : Nat) : List Json → List String
  | [] => []
  | item :: items => prettyAt level item :: prettyItems level items

/-- The members of an object over several lines. -/
def prettyMembers (level : Nat) : List (String × Json) → List String
  | [] => []
  | (name, value) :: members =>
    (quote name ++ ": " ++ prettyAt level value) :: prettyMembers level members

end

/-- The value over several lines. -/
def pretty (value : Json) : String :=
  prettyAt 0 value

end Json

end MiniVerilog
