import MiniVerilog.Text.Blank

/-! # Words, atoms and segments of a clean line

Words are what the linter looks for in a line. Atoms are what declarations are
read from: words, in which a tick joins the size of a literal to its base, and
single other characters. A segment is what stands between semicolons.
-/

namespace MiniVerilog.Lint

/-- A character of a word. -/
def isWordChar (c : Char) : Bool :=
  c.isAlphanum || c == '_' || c == '$'

/-- A character of an atom that has more than one. -/
def isAtomChar (c : Char) : Bool :=
  isWordChar c || c == '\''

/-- A word with the number of characters before it. -/
structure PlacedWord where
  offset : Nat
  word : String
  deriving DecidableEq, Repr

/-- The words of a text that has `offset` characters before it. -/
def placedWords (offset : Nat) (cs : List Char) : List PlacedWord :=
  match cs with
  | [] => []
  | c :: rest =>
    if isWordChar c then
      let more := rest.takeWhile isWordChar
      ⟨offset, String.ofList (c :: more)⟩ ::
        placedWords (offset + 1 + more.length) (rest.dropWhile isWordChar)
    else placedWords (offset + 1) rest
termination_by cs.length
decreasing_by
  · have shorter : (rest.dropWhile isWordChar).length ≤ rest.length :=
      (List.dropWhile_sublist _).length_le
    simp only [List.length_cons]
    omega
  · simp

/-- The words of a text. -/
def wordsOf (cs : List Char) : List String :=
  (placedWords 0 cs).map (·.word)

/-- The atoms of a text; blanks are no atoms. -/
def atoms (cs : List Char) : List String :=
  match cs with
  | [] => []
  | c :: rest =>
    if isAtomChar c then
      String.ofList (c :: rest.takeWhile isAtomChar) :: atoms (rest.dropWhile isAtomChar)
    else if Text.isBlank c then atoms rest
    else String.ofList [c] :: atoms rest
termination_by cs.length
decreasing_by
  · have shorter : (rest.dropWhile isAtomChar).length ≤ rest.length :=
      (List.dropWhile_sublist _).length_le
    simp only [List.length_cons]
    omega
  all_goals simp

/-- A piece of a line, and whether a semicolon ends it. -/
structure Segment where
  text : List Char
  terminated : Bool
  deriving DecidableEq, Repr

/-- The segments of a line that are not blank. -/
def segments (cs : List Char) : List Segment :=
  let pieces := cs.splitOn ';'
  let terminated := pieces.dropLast.map fun piece => ⟨piece, true⟩
  let last := (pieces.drop (pieces.length - 1)).map fun piece => ⟨piece, false⟩
  (terminated ++ last).filter fun segment => !(segment.text.all Text.isBlank)

/-- An atom that can be a name. -/
def isName (atom : String) : Bool :=
  (match atom.toList with
    | c :: _ => c.isAlpha || c == '_'
    | [] => false) && !atom.toList.contains '\''

/-- The words that end a list of port names. -/
def isDeclarationWord (atom : String) : Bool :=
  ["input", "output", "inout", "wire", "reg", "parameter", "localparam", "signed"].contains atom

end MiniVerilog.Lint
