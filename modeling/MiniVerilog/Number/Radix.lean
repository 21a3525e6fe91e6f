/-! # Radixes of integer literals

The four bases a literal can be written in, their letters and their digits.
-/

namespace MiniVerilog

/-- A base of integer literals. -/
inductive Radix where
  | binary | octal | decimal | hexadecimal
  deriving DecidableEq, Repr

namespace Radix

/-- The base a letter stands for, in either case. -/
def ofLetter? (letter : Char) : Option Radix :=
  match letter.toLower with
  | 'b' => some binary
  | 'o' => some octal
  | 'd' => some decimal
  | 'h' => some hexadecimal
  | _ => none

/-- The number of digits. -/
def base : Radix → Nat
  | binary => 2
  | octal => 8
  | decimal => 10
  | hexadecimal => 16

/-- The value of a hexadecimal digit in either case. -/
def hexValue? (c : Char) : Option Nat :=
  if '0' ≤ c ∧ c ≤ '9' then some (c.toNat - '0'.toNat)
  else if 'a' ≤ c ∧ c ≤ 'f' then some (c.toNat - 'a'.toNat + 10)
  else if 'A' ≤ c ∧ c ≤ 'F' then some (c.toNat - 'A'.toNat + 10)
  else none

/-- The value of a digit of this radix. -/
def digit? (radix : Radix) (c : Char) : Option Nat :=
  (hexValue? c).filter fun digit => digit < radix.base

/-- A digit whose value is not known: `x`, `z` in either case, or `?`. -/
def isUnknown (c : Char) : Bool :=
  c == 'x' || c == 'X' || c == 'z' || c == 'Z' || c == '?'

/-- The characters that may follow the base letter of a literal. -/
def admits (radix : Radix) (c : Char) : Bool :=
  (radix.digit? c).isSome || isUnknown c || c == '_'

end Radix

/-- A letter that may follow the tick of a literal: a base, or the sign mark
before it. -/
def isBaseMark (c : Char) : Bool :=
  (Radix.ofLetter? c).isSome || c == 's' || c == 'S'

end MiniVerilog
