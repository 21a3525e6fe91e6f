import MiniVerilog.Number.Literal

/-! # Constant expressions

Range bounds and parameter values are chains of operands and operators, folded
from left to right without precedence.
-/

namespace MiniVerilog.Constant

/-- An operand is a literal or a known name. -/
def operand? (lookup : String → Option Value) (word : String) : Option Value :=
  (Literal.value? word).or (lookup word)

/-- Applies an operator of constant expressions, unless its right operand is out
of range. -/
def combine? (left : Value) (operator : String) (right : Value) : Option Value :=
  match operator with
  | "+" => some (left + right)
  | "-" => some (left - right)
  | "*" => some (left * right)
  | "/" => if right = 0 then none else some (left / right)
  | "<<" => (Value.shiftDistance? right).map (Value.shiftLeft left)
  | _ => none

/-- Folds the rest of a chain into the value of its beginning. -/
def foldFrom (lookup : String → Option Value) (value : Value) : List String → Option Value
  | [] => some value
  | [_] => none
  | operator :: word :: rest => do
    let right ← operand? lookup word
    foldFrom lookup (← combine? value operator right) rest

/-- The value of a constant expression, given its words. Parentheses are
ignored. -/
def fold (lookup : String → Option Value) (words : List String) : Option Value :=
  match words.filter fun word => word != "(" && word != ")" with
  | [] => none
  | first :: rest => do foldFrom lookup (← operand? lookup first) rest

end MiniVerilog.Constant
