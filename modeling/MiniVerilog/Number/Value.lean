/-! # Signal values

Every signal, literal and parameter holds a 64-bit two's complement integer, and
arithmetic on it wraps.
-/

namespace MiniVerilog

/-- A 64-bit two's complement integer. -/
abbrev Value := Int64

namespace Value

/-- A truth value as a number. -/
def ofBool (condition : Bool) : Value :=
  if condition then 1 else 0

/-- The low bits of a value, as many as a width between 1 and 63 says. Any other
width keeps the whole value. -/
def truncate (width : Nat) (value : Value) : Value :=
  if 0 < width ∧ width < 64 then Int64.ofNat (value.toUInt64.toNat % Nat.pow 2 width) else value

/-- A shift distance, which is between 0 and 63. -/
def shiftDistance? (value : Value) : Option Nat :=
  if 0 ≤ value ∧ value < 64 then some value.toInt.toNat else none

/-- The value shifted towards the high bits, for a distance below 64. -/
def shiftLeft (value : Value) (distance : Nat) : Value :=
  value <<< Int64.ofNat distance

/-- The value shifted towards the low bits with zeros entering at the top, for a
distance below 64. -/
def shiftRight (value : Value) (distance : Nat) : Value :=
  (value.toUInt64 >>> UInt64.ofNat distance).toInt64

/-- The largest width there is. -/
def maxWidth : Nat :=
  4294967295

/-- The number of bits between two bounds of a range, both included, up to the
largest width there is. -/
def rangeWidth (high low : Value) : Nat :=
  min ((high.toInt - low.toInt).natAbs + 1) maxWidth

end Value

end MiniVerilog
