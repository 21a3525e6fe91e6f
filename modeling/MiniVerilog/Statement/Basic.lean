import MiniVerilog.Statement.Pool

/-! # Procedural statements

Statements are kept in a pool and name the statements of their bodies by number.
A module that was not read from source text may name numbers that the pool does
not have. Expressions are kept as text.
-/

namespace MiniVerilog

/-- One alternative of a case statement. -/
structure CaseArm where
  labels : List String
  body : List Nat
  deriving DecidableEq, Repr

/-- A statement of an always block. -/
inductive Statement where
  /-- An assignment; a blocking one takes effect before the next statement. -/
  | assign (target expression : String) (blocking : Bool) (line : Nat)
  /-- A choice by a condition. -/
  | branch (condition : String) (thenBody elseBody : List Nat)
  /-- A choice by the value of a subject. -/
  | select (subject : String) (arms : List CaseArm) (otherwise : List Nat)
  deriving DecidableEq, Repr

/-- The name that a statement itself assigns. -/
def Statement.target? : Statement → Option String
  | assign target .. => some target
  | _ => none

end MiniVerilog
