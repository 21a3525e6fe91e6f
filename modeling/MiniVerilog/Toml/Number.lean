import MiniVerilog.Number.Radix
import MiniVerilog.Toml.Basic
import MiniVerilog.Toml.Layout

/-! # Numbers of TOML

Integers have 64 bits with a sign. Of a number with a fraction or a power of ten
only the form is read.
-/

namespace MiniVerilog.Toml

/-- Reads digits, between which single underscores may stand. -/
def digits? (isDigit : Char → Bool) : List Char → Option (List Char × List Char)
  | c :: '_' :: d :: rest =>
    if isDigit c && isDigit d then
      (digits? isDigit (d :: rest)).map fun read => (c :: read.1, read.2)
    else if isDigit c then some ([c], '_' :: d :: rest)
    else none
  | c :: rest =>
    if isDigit c then
      match digits? isDigit rest with
      | some read => some (c :: read.1, read.2)
      | none => some ([c], rest)
    else none
  | [] => none

/-- The number that digits of a base stand for. -/
def natural (base : Nat) (digits : List Char) : Nat :=
  digits.foldl (fun number c => base * number + ((Radix.hexValue? c).getD 0)) 0

/-- An integer has to fit into 64 bits with a sign. -/
def inRange (value : Int) : Option Toml :=
  if Int64.minValue.toInt ≤ value ∧ value ≤ Int64.maxValue.toInt then some (.integer value)
  else none

/-- Reads an integer in a radix after the mark of the radix. -/
def radixInteger? (radix : Radix) (cs : List Char) : Option (Toml × List Char) := do
  let (digits, rest) ← digits? (fun c => (radix.digit? c).isSome) cs
  return (← inRange (natural radix.base digits), rest)

/-- Reads an optional sign; `true` is minus. -/
def sign : List Char → Bool × List Char
  | '-' :: rest => (true, rest)
  | '+' :: rest => (false, rest)
  | cs => (false, cs)

/-- Reads the digits of a decimal number before its point. A leading zero stands
alone. -/
def whole? : List Char → Option (List Char × List Char)
  | '0' :: rest => some (['0'], rest)
  | cs => digits? Char.isDigit cs

/-- Reads a fraction after its point, if there is one. -/
def fraction? : List Char → Option (List Char × List Char)
  | '.' :: rest => digits? Char.isDigit rest
  | cs => some ([], cs)

/-- Reads a power of ten after its letter, if there is one. -/
def power? (cs : List Char) : Option (Option Int × List Char) :=
  match cs with
  | c :: rest =>
    if c == 'e' || c == 'E' then do
      let (negative, rest) := sign rest
      let (digits, rest) ← digits? Char.isDigit rest
      let power : Int := natural 10 digits
      return (some (if negative then -power else power), rest)
    else some (none, cs)
  | [] => some (none, [])

/-- The number `digits * 10 ^ power` is too large for a double. -/
def overflows (digits : List Char) (power : Int) : Bool :=
  let digits := digits.dropWhile (· == '0')
  let size := (digits.length : Int) + power
  if digits.isEmpty || size < 300 then false
  else if 400 < size then true
  else
    (Nat.pow 2 1024 - Nat.pow 2 970) * Nat.pow 10 (-power).toNat ≤
      natural 10 digits * Nat.pow 10 power.toNat

/-- Reads a decimal integer or a number with a fraction or a power of ten. A
number that is too large for a double must be negative. -/
def decimal? (cs : List Char) : Option (Toml × List Char) := do
  let (negative, rest) := sign cs
  let (whole, rest) ← whole? rest
  let (fraction, rest) ← fraction? rest
  let (power, rest) ← power? rest
  if fraction.isEmpty && power.isNone then
    let value : Int := natural 10 whole
    return (← inRange (if negative then -value else value), rest)
  else if !negative && overflows (whole ++ fraction) (power.getD 0 - fraction.length) then none
  else return (.float, rest)

/-- Reads infinity or what is not a number. -/
def special? (cs : List Char) : Option (Toml × List Char) :=
  let rest := (sign cs).2
  ((after? "inf" rest).or (after? "nan" rest)).map (.float, ·)

end MiniVerilog.Toml
