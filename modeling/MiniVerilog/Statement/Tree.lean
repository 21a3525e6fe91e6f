import MiniVerilog.Statement.Basic

/-! # Statement trees

The statements below a body as a tree, read from the pool by number. What a body
means is defined on trees, so it does not depend on the numbers.
-/

namespace MiniVerilog

/-- A statement with everything below it. -/
inductive StatementTree where
  /-- A number that names no statement. -/
  | missing
  | assign (target expression : String) (blocking : Bool) (line : Nat)
  | branch (condition : String) (thenBody elseBody : List StatementTree)
  | select (subject : String) (arms : List (List String × List StatementTree))
      (otherwise : List StatementTree)
  deriving Repr

namespace StatementTree

/-- The tree below a number, with statements nested at most `depth` deep; what is
deeper is missing. -/
def ofIndex (pool : Pool Statement) : (depth : Nat) → Nat → StatementTree
  | 0, _ => missing
  | depth + 1, index =>
    match pool.get? index with
    | none => missing
    | some (.assign target expression blocking line) =>
      assign target expression blocking line
    | some (.branch condition thenBody elseBody) =>
      branch condition (thenBody.map (ofIndex pool depth)) (elseBody.map (ofIndex pool depth))
    | some (.select subject arms otherwise) =>
      select subject (arms.map fun arm => (arm.labels, arm.body.map (ofIndex pool depth)))
        (otherwise.map (ofIndex pool depth))

/-- The trees below the numbers of a body. No statement can be nested deeper than
there are statements, unless it contains itself. -/
def ofBody (pool : Pool Statement) (body : List Nat) : List StatementTree :=
  body.map (ofIndex pool pool.size)

mutual

/-- The names that a statement or one below it assigns, in reading order and as
often as they are assigned. -/
def targets : StatementTree → List String
  | missing => []
  | assign target .. => [target]
  | branch _ thenBody elseBody => targetsOfBody thenBody ++ targetsOfBody elseBody
  | select _ arms otherwise => targetsOfArms arms ++ targetsOfBody otherwise

/-- The names assigned in a body. -/
def targetsOfBody : List StatementTree → List String
  | [] => []
  | tree :: body => targets tree ++ targetsOfBody body

/-- The names assigned in the alternatives of a case statement. -/
def targetsOfArms : List (List String × List StatementTree) → List String
  | [] => []
  | (_, body) :: arms => targetsOfBody body ++ targetsOfArms arms

end

/-- Puts `begin` and `end` around the texts of a body, unless it is one
statement. -/
def bodyText : List String → String
  | [single] => single
  | texts => "begin " ++ " ".intercalate texts ++ " end"

mutual

/-- A statement on one line of source text. -/
def text : StatementTree → String
  | missing => ""
  | assign target expression blocking _ =>
    target ++ (if blocking then " = " else " <= ") ++ expression ++ ";"
  | branch condition thenBody elseBody =>
    "if (" ++ condition ++ ") " ++ bodyText (texts thenBody) ++
      if elseBody.isEmpty then "" else " else " ++ bodyText (texts elseBody)
  | select subject arms otherwise =>
    "case (" ++ subject ++ ")" ++ armsText arms ++
      (if otherwise.isEmpty then "" else " default: " ++ bodyText (texts otherwise)) ++
      " endcase"

/-- The statements of a body, each on one line of source text. -/
def texts : List StatementTree → List String
  | [] => []
  | tree :: body => text tree :: texts body

/-- The alternatives of a case statement, each after a space. -/
def armsText : List (List String × List StatementTree) → String
  | [] => ""
  | (labels, body) :: arms =>
    " " ++ ", ".intercalate labels ++ ": " ++ bodyText (texts body) ++ armsText arms

end

end StatementTree

end MiniVerilog
