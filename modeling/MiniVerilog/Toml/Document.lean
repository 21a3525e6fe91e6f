import MiniVerilog.Toml.Date
import MiniVerilog.Toml.Quoted

/-! # Reading TOML documents

A document is a list of lines: blank lines, headers, and keys with values. A text
that is not a document has no reading.
-/

namespace MiniVerilog.Toml

/-- Reads a value that is neither an array nor a table. -/
def scalar? (cs : List Char) : Option (Toml × List Char) :=
  match cs with
  | '0' :: 'x' :: rest => radixInteger? .hexadecimal rest
  | '0' :: 'o' :: rest => radixInteger? .octal rest
  | '0' :: 'b' :: rest => radixInteger? .binary rest
  | c :: _ =>
    if c == '"' || c == '\'' then
      (string? cs).map fun read => (.string (String.ofList read.1), read.2)
    else
      ((after? "true" cs).map (Toml.boolean true, ·)).or
        (((after? "false" cs).map (Toml.boolean false, ·)).or
          ((date? cs).or ((special? cs).or (decimal? cs))))
  | [] => none

/-- What was read from a text, of which the rest is shorter. -/
structure Taken (α : Type) (cs : List Char) where
  value : α
  rest : List Char
  shorter : rest.length < cs.length

/-- A reading, if it takes at least one character. -/
def Taken.of? {α : Type} {cs : List Char} (read : α × List Char) : Option (Taken α cs) :=
  if shorter : read.2.length < cs.length then some ⟨read.1, read.2, shorter⟩ else none

/-- A reading from a text, seen as one from a longer text. -/
def Taken.widen {α : Type} {cs whole : List Char} (taken : Taken α cs)
    (bounded : cs.length ≤ whole.length) : Taken α whole :=
  ⟨taken.value, taken.rest, Nat.lt_of_lt_of_le taken.shorter bounded⟩

/-- How many arrays and tables can be inside each other, and how many parts a key
can have. -/
def depthLimit : Nat := 79

/-- A key with the text of its value: the path, the last part, and the text after
the mark between them. -/
def keyAndMark? (cs : List Char) : Option ((List String × String) × List Char) := do
  let (parts, rest) ← key? depthLimit cs
  let name ← parts.getLast?
  match rest with
  | '=' :: rest => some ((parts.dropLast, name), skipBlanks rest)
  | _ => none

mutual

/-- Reads a value, in which others can be inside each other to a depth. -/
def value? (depth : Nat) (cs : List Char) : Option (Taken Toml cs) :=
  match depth, cs with
  | depth + 1, '[' :: rest =>
    (items? depth rest).map fun taken =>
      (⟨.array taken.value, taken.rest, taken.shorter⟩ : Taken Toml rest).widen (by simp)
  | depth + 1, '\x7b' :: rest =>
    match skipBlanks rest with
    | '\x7d' :: after => Taken.of? (.inlineTable [], after)
    | _ =>
      (members? depth [] rest).map fun taken =>
        (⟨.inlineTable taken.value, taken.rest, taken.shorter⟩ : Taken Toml rest).widen (by simp)
  | _, cs => (scalar? cs).bind Taken.of?
termination_by 2 * cs.length

/-- Reads the items of an array and the bracket that closes it. A comma may stand
after the last item. -/
def items? (depth : Nat) (cs : List Char) : Option (Taken (List Toml) cs) := do
  match skipLayout cs with
  | ']' :: rest => Taken.of? ([], rest)
  | start =>
    if start.length ≤ cs.length then
      let item ← value? depth start
      match skipLayout item.rest with
      | ']' :: rest => Taken.of? ([item.value], rest)
      | ',' :: rest =>
        if fewer : rest.length < cs.length then
          let items ← items? depth rest
          return ⟨item.value :: items.value, items.rest, Nat.lt_trans items.shorter fewer⟩
        else none
      | _ => none
    else none
termination_by 2 * cs.length + 1

/-- Reads the entries of a table in braces and the brace that closes it, after the
entries read so far. -/
def members? (depth : Nat) (entries : Entries) (cs : List Char) : Option (Taken Entries cs) := do
  let ((path, name), start) ← keyAndMark? cs
  if start.length ≤ cs.length then
    let value ← value? depth start
    let entries ← addKey name value.value true path entries
    match skipBlanks value.rest with
    | '\x7d' :: rest => Taken.of? (entries, rest)
    | ',' :: rest =>
      if fewer : rest.length < cs.length then
        let members ← members? depth entries rest
        return members.widen (Nat.le_of_lt fewer)
      else none
    | _ => none
  else none
termination_by 2 * cs.length + 1

end

/-- A document as far as it is read: its table, and the header that the next keys
belong to. -/
structure Unfinished where
  header : List String := []
  entries : Entries := []

/-- Reads the key of a header and the brackets after it, up to the end of the
line. -/
def header? (closing : String) (cs : List Char) : Option ((List String × String) × List Char) := do
  let (parts, rest) ← key? depthLimit cs
  let name ← parts.getLast?
  return ((parts.dropLast, name), ← endOfLine? (← after? closing rest))

/-- Reads a line that is not blank. -/
def line? (document : Unfinished) (cs : List Char) : Option (Unfinished × List Char) := do
  match cs with
  | '[' :: '[' :: rest =>
    let ((path, name), rest) ← header? "]]" rest
    return (⟨path ++ [name], ← addElement path name document.entries⟩, rest)
  | '[' :: rest =>
    let ((path, name), rest) ← header? "]" rest
    return (⟨path ++ [name], ← defineTable path name document.entries⟩, rest)
  | cs =>
    let ((path, name), start) ← keyAndMark? cs
    let value ← value? depthLimit start
    let rest ← endOfLine? value.rest
    let entries ← changeAt (addKey name value.value true path) document.header document.entries
    return (⟨document.header, entries⟩, rest)

/-- Reads the lines of a document after those read so far. -/
def lines? (document : Unfinished) (cs : List Char) : Option Entries :=
  match cs with
  | [] => some document.entries
  | c :: following =>
    match endOfLine? (c :: following) with
    | some rest =>
      if rest.length < (c :: following).length then lines? document rest else none
    | none =>
      match line? document (skipBlanks (c :: following)) with
      | some (document, rest) =>
        if rest.length < (c :: following).length then lines? document rest else none
      | none => none
termination_by cs.length
decreasing_by all_goals simp_all only [List.length_cons]

/-- The entries of a document. A mark of the byte order may come first. -/
def parse? (text : String) : Option Entries :=
  match text.toList with
  | '\uFEFF' :: rest => lines? {} rest
  | cs => lines? {} cs

end MiniVerilog.Toml
