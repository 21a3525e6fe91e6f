import MiniVerilog.Number.Radix
import MiniVerilog.Toml.Layout

/-! # Strings and keys of TOML

A string stands in double quotes, where a backslash starts an escape, or in single
quotes, where it does not; three quotes admit several lines. A key is made of
strings on one line and of names without quotes, with dots between them.
-/

namespace MiniVerilog.Toml

/-- A character that may stand in a string in quotes: no quote, no backslash and
no control character but the tabulator. -/
def isUnescaped (c : Char) : Bool :=
  isPlain c && c != '"' && c != '\\'

/-- The character with a code given by hexadecimal digits. -/
def unicode? (digits : List Char) : Option Char := do
  let values ← digits.mapM Radix.hexValue?
  let code := values.foldl (fun code digit => 16 * code + digit) 0
  if Nat.isValidChar code then some (Char.ofNat code) else none

/-- Reads an escape after its backslash. -/
def escape? : List Char → Option (Char × List Char)
  | 'b' :: rest => some ('\x08', rest)
  | 't' :: rest => some ('\t', rest)
  | 'n' :: rest => some ('\n', rest)
  | 'f' :: rest => some ('\x0c', rest)
  | 'r' :: rest => some ('\r', rest)
  | '"' :: rest => some ('"', rest)
  | '\\' :: rest => some ('\\', rest)
  | 'u' :: rest => if 4 ≤ rest.length then (unicode? (rest.take 4)).map (·, rest.drop 4) else none
  | 'U' :: rest => if 8 ≤ rest.length then (unicode? (rest.take 8)).map (·, rest.drop 8) else none
  | _ => none

/-- Reads a string after its opening quote. -/
def quoted? (cs : List Char) : Option (List Char × List Char) :=
  match cs with
  | [] => none
  | '"' :: rest => some ([], rest)
  | '\\' :: rest =>
    match escape? rest with
    | some (c, after) =>
      if after.length < rest.length then (quoted? after).map fun read => (c :: read.1, read.2)
      else none
    | none => none
  | c :: rest =>
    if isUnescaped c then (quoted? rest).map fun read => (c :: read.1, read.2) else none
termination_by cs.length
decreasing_by all_goals simp only [List.length_cons]; omega

/-- Reads a literal string after its opening quote. -/
def literal? : List Char → Option (List Char × List Char)
  | [] => none
  | '\'' :: rest => some ([], rest)
  | c :: rest =>
    if isPlain c then (literal? rest).map fun read => (c :: read.1, read.2) else none

/-- Ends a string over several lines at three quotes or more. Up to two more
quotes before them belong to the string. -/
def closing? (mark : Char) (cs : List Char) : Option (List Char × List Char) :=
  let quotes := (cs.takeWhile (· == mark)).length
  if quotes < 3 then none
  else
    let inner := min 2 (quotes - 3)
    some (List.replicate inner mark, cs.drop (inner + 3))

/-- The text after the blanks and line ends that a backslash at the end of a line
takes with it. -/
def skipFolded : List Char → List Char
  | [] => []
  | '\r' :: '\n' :: rest => skipFolded rest
  | c :: rest => if isBlank c || c == '\n' then skipFolded rest else c :: rest

/-- Reads the lines of a string after the three opening quotes and a line end
directly after them. -/
def quotedLines? (cs : List Char) : Option (List Char × List Char) :=
  match closing? '"' cs with
  | some ended => some ended
  | none =>
    match cs with
    | [] => none
    | '\\' :: rest =>
      match lineEnd? (skipBlanks rest) with
      | some after =>
        if (skipFolded after).length ≤ rest.length then quotedLines? (skipFolded after) else none
      | none =>
        match escape? rest with
        | some (c, after) =>
          if after.length ≤ rest.length then
            (quotedLines? after).map fun read => (c :: read.1, read.2)
          else none
        | none => none
    | '\r' :: '\n' :: rest => (quotedLines? rest).map fun read => ('\n' :: read.1, read.2)
    | c :: rest =>
      if isUnescaped c || c == '"' || c == '\n' then
        (quotedLines? rest).map fun read => (c :: read.1, read.2)
      else none
termination_by cs.length
decreasing_by all_goals simp only [List.length_cons]; omega

/-- Reads the lines of a literal string after the three opening quotes and a line
end directly after them. -/
def literalLines? (cs : List Char) : Option (List Char × List Char) :=
  match closing? '\'' cs with
  | some ended => some ended
  | none =>
    match cs with
    | [] => none
    | '\r' :: '\n' :: rest => (literalLines? rest).map fun read => ('\n' :: read.1, read.2)
    | c :: rest =>
      if isPlain c || c == '\n' then
        (literalLines? rest).map fun read => (c :: read.1, read.2)
      else none

/-- The text after a line end, if it starts with one. -/
def skipLineEnd (cs : List Char) : List Char :=
  (lineEnd? cs).getD cs

/-- Reads a string of any of the four kinds. -/
def string? : List Char → Option (List Char × List Char)
  | '"' :: '"' :: '"' :: rest => quotedLines? (skipLineEnd rest)
  | '\'' :: '\'' :: '\'' :: rest => literalLines? (skipLineEnd rest)
  | '"' :: rest => quoted? rest
  | '\'' :: rest => literal? rest
  | _ => none

/-- A character of a key without quotes. -/
def isKeyChar (c : Char) : Bool :=
  c.isAlphanum || c == '_' || c == '-'

/-- Reads one part of a key. -/
def keyPart? : List Char → Option (List Char × List Char)
  | '"' :: rest => quoted? rest
  | '\'' :: rest => literal? rest
  | cs =>
    match cs.takeWhile isKeyChar with
    | [] => none
    | part => some (part, cs.dropWhile isKeyChar)

/-- Reads a key of one or more parts with dots between them, and the blanks after
it. A key has no more parts than the given bound. -/
def key? : (bound : Nat) → List Char → Option (List String × List Char)
  | 0, _ => none
  | bound + 1, cs => do
    let (part, rest) ← keyPart? (skipBlanks cs)
    match skipBlanks rest with
    | '.' :: rest => do
      let (parts, rest) ← key? bound rest
      return (String.ofList part :: parts, rest)
    | rest => return ([String.ofList part], rest)

end MiniVerilog.Toml
