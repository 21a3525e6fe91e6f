import MiniVerilog.Text.Blank
import MiniVerilog.Token.Basic

/-! # Expression text

Expressions are kept as the texts of their tokens with one space between them.
-/

namespace MiniVerilog.Source

/-- Every parenthesis closes an open one and none is left open, when `depth` are
open before the text. -/
def balanced : (depth : Nat) → List Char → Bool
  | depth, [] => depth == 0
  | depth, '(' :: rest => balanced (depth + 1) rest
  | 0, ')' :: _ => false
  | depth + 1, ')' :: rest => balanced depth rest
  | depth, _ :: rest => balanced depth rest

/-- The text between a first `(` and a last `)`. -/
def betweenParentheses? : List Char → Option (List Char)
  | '(' :: rest => if rest.getLast? = some ')' then some rest.dropLast else none
  | _ => none

/-- A text without blanks around it and without one pair of parentheses that
wraps it whole. -/
def unwrap (text : String) : String :=
  let trimmed := Text.trim text.toList
  match betweenParentheses? trimmed with
  | some inner => String.ofList (if balanced 0 inner then Text.trim inner else trimmed)
  | none => String.ofList trimmed

/-- Words with one space between them. -/
def joined (words : List String) : String :=
  " ".intercalate words

/-- The text of an expression, given its words. -/
def expression (words : List String) : String :=
  unwrap (joined words)

/-- The words between the commas outside brackets; there is one group more than
there are such commas. -/
def commaGroups (depth : Int) : List String → List (List String)
  | [] => [[]]
  | word :: words =>
    if word = "," ∧ depth = 0 then [] :: commaGroups depth words
    else (commaGroups (depth + bracketNesting word) words).modifyHead (word :: ·)

/-- The labels of a case arm. A comma after the last label starts no label. -/
def labels (words : List String) : List String :=
  let groups := commaGroups 0 words
  let groups := if groups.getLast? = some [] then groups.dropLast else groups
  groups.map joined

end MiniVerilog.Source
