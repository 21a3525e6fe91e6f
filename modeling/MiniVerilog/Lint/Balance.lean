/-! # Balance of opening and closing delimiters -/

namespace MiniVerilog.Lint

/-- Openers less closers, and the line of the delimiter at which this number last
left 0. -/
structure Balance where
  depth : Int := 0
  since : Nat := 0
  deriving DecidableEq, Repr

namespace Balance

/-- Counts an opener on a line. -/
def opened (balance : Balance) (line : Nat) : Balance where
  depth := balance.depth + 1
  since := if balance.depth = 0 then line else balance.since

/-- Counts a closer on a line. -/
def closed (balance : Balance) (line : Nat) : Balance where
  depth := balance.depth - 1
  since := if balance.depth = 0 then line else balance.since

end Balance

end MiniVerilog.Lint
