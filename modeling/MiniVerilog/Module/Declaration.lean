import MiniVerilog.Number.Value

/-! # Declarations

The named things a module declares: ports, signals, parameters, continuous
assignments and instances of other modules. Every declaration carries the line
it was found on.
-/

namespace MiniVerilog

/-- The direction of a port. -/
inductive Direction where
  | input | output | inout
  deriving DecidableEq, Repr

namespace Direction

/-- The word that opens a declaration of ports of this direction. -/
def spelling : Direction → String
  | input => "input"
  | output => "output"
  | inout => "inout"

/-- The direction a word stands for. -/
def ofSpelling? (word : String) : Option Direction :=
  [input, output, inout].find? fun direction => direction.spelling = word

end Direction

/-- A connection of the module to the outside. -/
structure Port where
  name : String
  direction : Direction
  width : Nat
  signed : Bool := false
  line : Nat
  deriving DecidableEq, Repr

/-- Whether a signal is a net or a variable. -/
inductive SignalKind where
  | wire | reg
  deriving DecidableEq, Repr

namespace SignalKind

/-- The word that opens a declaration of signals of this kind. -/
def spelling : SignalKind → String
  | wire => "wire"
  | reg => "reg"

end SignalKind

/-- A net or a variable of the module. -/
structure Signal where
  name : String
  kind : SignalKind
  width : Nat
  signed : Bool := false
  initialValue : Option Value := none
  line : Nat
  deriving DecidableEq, Repr

/-- A named constant; `isLocal` when it cannot be set from outside. -/
structure Parameter where
  name : String
  value : Value
  isLocal : Bool := false
  line : Nat
  deriving DecidableEq, Repr

/-- A continuous assignment: the target always follows the expression. -/
structure Assign where
  target : String
  expression : String
  line : Nat
  deriving DecidableEq, Repr

/-- An instance of another module. A connection pairs a port, which is empty when
it is given by position, with the text of a net. -/
structure Instance where
  moduleName : String
  instanceName : String
  connections : List (String × String)
  line : Nat
  deriving DecidableEq, Repr

end MiniVerilog
