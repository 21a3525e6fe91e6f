import MiniVerilog.Decimal.Binary

/-! # The shortest decimal text of a double

The digits are the fewest that read back as the same double, and of those the
nearest to its value. A double reads back from every number nearer to it than to
its neighbours, and from the two midpoints if its own mantissa is even.
-/

namespace MiniVerilog.Decimal

/-- The number `digits * 10 ^ exponent`. -/
structure Scientific where
  digits : Nat
  exponent : Int
  deriving DecidableEq, Repr

/-- The numbers that round to a double, scaled by a common denominator: the
value lies between the two midpoints, which belong to the interval when
`closed`. -/
structure Interval where
  low : Nat
  value : Nat
  high : Nat
  denominator : Nat
  closed : Bool
  deriving Repr

/-- The numbers that round to a positive double. The midpoint below a power of
two is nearer than the one above it. -/
def Interval.around (x : Binary) : Interval :=
  let narrow := x.mantissa = Binary.leadingBit ∧ -1074 < x.exponent
  let (numerator, denominator) := x.quotient
  let unit := if 0 ≤ x.exponent then Nat.pow 2 x.exponent.toNat else 1
  { low := 4 * numerator - (if narrow then unit else 2 * unit)
    value := 4 * numerator
    high := 4 * numerator + 2 * unit
    denominator := 4 * denominator
    closed := x.mantissa % 2 = 0 }

/-- A multiple of `10 ^ exponent` lies in the interval. -/
def Interval.admits (interval : Interval) (digits : Nat) (exponent : Int) : Bool :=
  let scaled := digits * Nat.pow 10 exponent.toNat * interval.denominator
  let power := Nat.pow 10 (-exponent).toNat
  if interval.closed then
    interval.low * power ≤ scaled && scaled ≤ interval.high * power
  else interval.low * power < scaled && scaled < interval.high * power

/-- The multiple of `10 ^ exponent` nearest to the value, if it or its neighbour
on the other side of the value lies in the interval. -/
def Interval.onGrid? (interval : Interval) (exponent : Int) : Option Scientific :=
  let numerator := interval.value * Nat.pow 10 (-exponent).toNat
  let denominator := interval.denominator * Nat.pow 10 exponent.toNat
  let near := roundDiv numerator denominator
  let below := numerator / denominator
  let far := if near = below then below + 1 else below
  if interval.admits near exponent then some ⟨near, exponent⟩
  else if interval.admits far exponent then some ⟨far, exponent⟩
  else none

/-- The first grid with a hit, from `exponent` down to finer ones. -/
def Interval.search (interval : Interval) : (grids : Nat) → (exponent : Int) → Scientific
  | 0, exponent => ⟨interval.value / interval.denominator, exponent⟩
  | grids + 1, exponent =>
    match interval.onGrid? exponent with
    | some found => if found.digits = 0 then interval.search grids (exponent - 1) else found
    | none => interval.search grids (exponent - 1)

/-- Drops zeros at the end of the digits. -/
def Scientific.normal : (zeros : Nat) → Scientific → Scientific
  | 0, number => number
  | zeros + 1, number =>
    if number.digits % 10 = 0 then normal zeros ⟨number.digits / 10, number.exponent + 1⟩
    else number

/-- The shortest digits of a positive double. -/
def shortest (x : Binary) : Scientific :=
  ((Interval.around x).search 660 309).normal 20

/-- Digits with the decimal point where the exponent puts it, for numbers that
are neither very large nor very small; otherwise one digit before the point and
a power of ten. -/
def Scientific.text (number : Scientific) : String :=
  let digits := (toString number.digits).toList
  let point := (digits.length : Int) + number.exponent
  if 0 ≤ number.exponent ∧ point ≤ 16 then
    String.ofList (digits ++ List.replicate number.exponent.toNat '0') ++ ".0"
  else if 0 < point ∧ point ≤ 16 then
    String.ofList (digits.take point.toNat) ++ "." ++ String.ofList (digits.drop point.toNat)
  else if -5 < point ∧ point ≤ 0 then
    "0." ++ String.ofList (List.replicate (-point).toNat '0' ++ digits)
  else
    let fraction := digits.drop 1
    String.ofList (digits.take 1) ++
      (if fraction.isEmpty then "" else "." ++ String.ofList fraction) ++
      "e" ++ toString (point - 1)

/-- The shortest decimal text of a double that is finite and not negative. -/
def text (x : Float) : String :=
  let exact := Binary.ofFloat x
  if exact.mantissa = 0 then "0.0" else (shortest exact).text

end MiniVerilog.Decimal
