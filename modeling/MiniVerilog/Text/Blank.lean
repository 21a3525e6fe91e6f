/-! # Blank characters

Trimming and splitting at blank characters, and padding with spaces. A character is blank when it
has the Unicode property `White_Space`; the ASCII blanks that separate tokens on a line are a
smaller class and are defined with the tokens.
-/

namespace MiniVerilog.Text

/-- The ranges of code points with the property `White_Space`, both ends
included. -/
def blankRanges : List (Nat × Nat) :=
  [(0x09, 0x0D), (0x20, 0x20), (0x85, 0x85), (0xA0, 0xA0), (0x1680, 0x1680),
    (0x2000, 0x200A), (0x2028, 0x2029), (0x202F, 0x202F), (0x205F, 0x205F),
    (0x3000, 0x3000)]

/-- A character with the property `White_Space`. -/
def isBlank (c : Char) : Bool :=
  blankRanges.any fun (low, high) => low ≤ c.toNat && c.toNat ≤ high

/-- The text without its leading blanks. -/
def trimStart (cs : List Char) : List Char :=
  cs.dropWhile isBlank

/-- The text without its trailing blanks. -/
def trimEnd (cs : List Char) : List Char :=
  (cs.reverse.dropWhile isBlank).reverse

/-- The text without blanks at either end. -/
def trim (cs : List Char) : List Char :=
  trimEnd (trimStart cs)

/-- The maximal runs of non-blank characters, in order. -/
def words (cs : List Char) : List (List Char) :=
  (cs.splitOnP isBlank).filter fun word => !word.isEmpty

/-- The words of a string. -/
def wordsOf (text : String) : List String :=
  (words text.toList).map String.ofList

/-- A string without blanks at either end. -/
def trimString (text : String) : String :=
  String.ofList (trim text.toList)

/-- A text with spaces after it up to a number of characters. -/
def padded (length : Nat) (text : String) : String :=
  text ++ String.ofList (List.replicate (length - text.length) ' ')

end MiniVerilog.Text
