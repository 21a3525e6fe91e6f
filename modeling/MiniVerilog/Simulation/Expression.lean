import MiniVerilog.Number.Literal
import MiniVerilog.Text.Blank

/-! # Evaluating expressions

An expression is one operand, an operator and an operand, or an operator between
two operands, with blanks between the words. Everything else has the value 0, so
evaluation never fails.
-/

namespace MiniVerilog.Expression

/-- The value of a literal, before which a minus sign may stand. -/
def signedLiteral? (word : String) : Option Value :=
  match word.toList with
  | '-' :: magnitude => (Literal.parse? magnitude).map fun value => -value
  | text => Literal.parse? text

/-- An operand is a literal or a name; an unknown name has the value 0. -/
def operand (lookup : String → Option Value) (word : String) : Value :=
  ((signedLiteral? word).or (lookup word)).getD 0

/-- Applies an operator to one operand. -/
def unary (operator : String) (value : Value) : Value :=
  match operator with
  | "~" => ~~~value
  | "!" => Value.ofBool (value == 0)
  | "-" => -value
  | _ => 0

/-- Applies an operator to two operands. Dividing by 0 and shifting by less than 0
or more than 63 give 0. -/
def binary (left : Value) (operator : String) (right : Value) : Value :=
  match operator with
  | "+" => left + right
  | "-" => left - right
  | "*" => left * right
  | "/" => if right = 0 then 0 else left / right
  | "%" => if right = 0 then 0 else left % right
  | "&" => left &&& right
  | "|" => left ||| right
  | "^" => left ^^^ right
  | "<<" => ((Value.shiftDistance? right).map (Value.shiftLeft left)).getD 0
  | ">>" => ((Value.shiftDistance? right).map (Value.shiftRight left)).getD 0
  | "==" => Value.ofBool (left == right)
  | "!=" => Value.ofBool (left != right)
  | "<" => Value.ofBool (left < right)
  | ">" => Value.ofBool (right < left)
  | "<=" => Value.ofBool (left ≤ right)
  | ">=" => Value.ofBool (right ≤ left)
  | "&&" => Value.ofBool (left != 0 && right != 0)
  | "||" => Value.ofBool (left != 0 || right != 0)
  | _ => 0

/-- The value of an expression, given its words. -/
def evaluateWords (lookup : String → Option Value) : List String → Value
  | [word] => operand lookup word
  | [operator, word] => unary operator (operand lookup word)
  | [left, operator, right] => binary (operand lookup left) operator (operand lookup right)
  | _ => 0

/-- The value of an expression under the values of names. -/
def evaluate (lookup : String → Option Value) (text : String) : Value :=
  evaluateWords lookup (Text.wordsOf text)

end MiniVerilog.Expression
