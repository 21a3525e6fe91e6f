/-! # Lines of a source text

A line ends at a line feed, and a carriage return directly before that line feed
belongs to the line end. A text that ends in a line feed has no further, empty
line.
-/

namespace MiniVerilog.Text

/-- The lines of a text without their line ends. -/
def lines : List Char → List (List Char)
  | [] => []
  | '\n' :: rest => [] :: lines rest
  | '\r' :: '\n' :: rest => [] :: lines rest
  | c :: rest =>
    match lines rest with
    | [] => [[c]]
    | line :: following => (c :: line) :: following

/-- The lines of a string. -/
def linesOf (text : String) : List String :=
  (lines text.toList).map String.ofList

end MiniVerilog.Text
