import MiniVerilog.Number.Radix
import MiniVerilog.Number.Value
import MiniVerilog.Text.Blank

/-! # Integer literals

A literal is a plain decimal number, or an optional size, a tick, an optional
sign mark, a base letter and digits. Underscores between digits mean nothing,
and an unknown digit of a based literal counts as 0.
-/

namespace MiniVerilog.Literal

/-- The number that digits of a base stand for, the leading one first. -/
def positional (base : Nat) (digits : List Nat) : Nat :=
  digits.foldl (fun number digit => number * base + digit) 0

/-- The value of a digit, where an unknown digit may be allowed to count as 0. -/
def digitValue? (radix : Radix) (allowUnknown : Bool) (c : Char) : Option Nat :=
  if allowUnknown && Radix.isUnknown c then some 0 else radix.digit? c

/-- The number that a text of digits and underscores stands for. There has to be
a digit. -/
def digits? (radix : Radix) (allowUnknown : Bool) (text : List Char) : Option Nat :=
  match (text.filter (· != '_')).mapM (digitValue? radix allowUnknown) with
  | some (first :: rest) => some (positional radix.base (first :: rest))
  | _ => none

/-- A plain decimal literal, which starts with a digit. -/
def plain? (text : List Char) : Option Value :=
  if text.head?.any Char.isDigit then (digits? .decimal false text).map Int64.ofNat else none

/-- The text after the tick of a based literal without its sign mark. -/
def dropSignMark (text : List Char) : List Char :=
  match text with
  | 's' :: rest => rest
  | 'S' :: rest => rest
  | _ => text

/-- A based literal, given the text before and after its tick. A size keeps that
many low bits. -/
def based? (size rest : List Char) : Option Value :=
  match dropSignMark rest with
  | [] => none
  | letter :: digits => do
    let radix ← Radix.ofLetter? letter
    let number ← digits? radix true digits
    if size.isEmpty then
      return Int64.ofNat number
    let width : Value := Int64.ofNat (← digits? .decimal false size)
    return Value.truncate width.toInt.toNat (Int64.ofNat number)

/-- The value of a literal, blanks around it ignored. -/
def parse? (text : List Char) : Option Value :=
  let text := Text.trim text
  match text.dropWhile (· != '\'') with
  | _ :: rest => based? (text.takeWhile (· != '\'')) rest
  | [] => plain? text

/-- The value of a literal given as a string. -/
def value? (text : String) : Option Value :=
  parse? text.toList

end MiniVerilog.Literal
