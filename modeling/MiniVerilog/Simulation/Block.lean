import MiniVerilog.NameMap
import MiniVerilog.Simulation.Expression
import MiniVerilog.Statement.Tree

/-! # Running procedural code

A body reads the values before the step, and its own blocking writes over them.
It writes nothing itself: it gives the list of its writes in order.
-/

namespace MiniVerilog

/-- What running a body has done so far: the blocking writes, which later
statements read, and all writes in order. -/
structure Effects where
  locals : NameMap Value := ∅
  writes : List (String × Value) := []
  deriving DecidableEq, Repr

namespace Effects

/-- The value of a name for the statements that follow. -/
def lookup (outer : String → Option Value) (effects : Effects) (name : String) : Option Value :=
  (effects.locals.get? name).or (outer name)

/-- Adds a write. -/
def write (effects : Effects) (blocking : Bool) (target : String) (value : Value) : Effects where
  locals := if blocking then effects.locals.insert target value else effects.locals
  writes := effects.writes ++ [(target, value)]

end Effects

namespace StatementTree

variable (mask : String → Value → Value) (outer : String → Option Value)

/-- A case arm is taken if one of its labels has the value of the subject. -/
def armMatches (lookup : String → Option Value) (subject : Value) (labels : List String) :
    Bool :=
  labels.any fun label => Expression.evaluate lookup label == subject

mutual

/-- Runs a statement. -/
def run (effects : Effects) : StatementTree → Effects
  | missing => effects
  | assign target expression blocking _ =>
    effects.write blocking target
      (mask target (Expression.evaluate (effects.lookup outer) expression))
  | branch condition thenBody elseBody =>
    if Expression.evaluate (effects.lookup outer) condition ≠ 0 then runBody effects thenBody
    else runBody effects elseBody
  | select subject arms otherwise =>
    match runArms effects (Expression.evaluate (effects.lookup outer) subject) arms with
    | some taken => taken
    | none => runBody effects otherwise

/-- Runs the statements of a body one after another. -/
def runBody (effects : Effects) : List StatementTree → Effects
  | [] => effects
  | tree :: body => runBody (run effects tree) body

/-- Runs the first arm that is taken, if there is one. -/
def runArms (effects : Effects) (subject : Value) :
    List (List String × List StatementTree) → Option Effects
  | [] => none
  | (labels, body) :: arms =>
    if armMatches (effects.lookup outer) subject labels then some (runBody effects body)
    else runArms effects subject arms

end

end StatementTree

end MiniVerilog
