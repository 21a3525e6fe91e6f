/-! # The exact value of a double

A finite double that is not negative is a whole number of units, each of which is
a power of two. Decimal text is made from that exact value, here with a fixed number
of places.
-/

namespace MiniVerilog.Decimal

/-- The number `mantissa * 2 ^ exponent`. -/
structure Binary where
  mantissa : Nat
  exponent : Int
  deriving DecidableEq, Repr

namespace Binary

/-- The smallest mantissa of 53 bits. -/
def leadingBit : Nat :=
  4503599627370496

/-- The exact value of a finite double without its sign. -/
def ofFloat (x : Float) : Binary :=
  let bits : Nat := x.toBits.toNat
  let fraction : Nat := bits % leadingBit
  let scale : Nat := bits / leadingBit % 2048
  if scale = 0 then ⟨fraction, -1074⟩ else ⟨fraction + leadingBit, (scale : Int) - 1075⟩

/-- The number as a quotient of two whole numbers, the second of which is
positive. -/
def quotient (x : Binary) : Nat × Nat :=
  if 0 ≤ x.exponent then (x.mantissa * Nat.pow 2 x.exponent.toNat, 1)
  else (x.mantissa, Nat.pow 2 (-x.exponent).toNat)

end Binary

/-- The quotient rounded to the nearest whole number; a half goes to the even
neighbour. -/
def roundDiv (numerator denominator : Nat) : Nat :=
  let whole := numerator / denominator
  let twice := 2 * (numerator % denominator)
  if twice < denominator ∨ (twice = denominator ∧ whole % 2 = 0) then whole else whole + 1

/-- A text with zeros before it up to a length. -/
def padZeros (length : Nat) (text : String) : String :=
  String.ofList (List.replicate (length - text.length) '0') ++ text

/-- A double that is not negative with the given number of places, at least one.
The exact value is rounded, and a half goes to the even neighbour. -/
def fixed (places : Nat) (x : Float) : String :=
  let (numerator, denominator) := (Binary.ofFloat x).quotient
  let scale := Nat.pow 10 places
  let scaled := roundDiv (numerator * scale) denominator
  toString (scaled / scale) ++ "." ++ padZeros places (toString (scaled % scale))

end MiniVerilog.Decimal
