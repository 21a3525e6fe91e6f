import MiniVerilog.Json.Basic
import MiniVerilog.Module.Basic
import MiniVerilog.Token.Basic

/-! # Tokens and modules as JSON

In a module the statements stand in one list, and bodies refer to them by their number.
-/

namespace MiniVerilog

/-- The class of a token, with the word of a keyword. -/
def TokenKind.json (kind : TokenKind) : Json :=
  let named (name : String) : List (String × Json) := [("class", .string name)]
  .object <|
    match kind with
    | .keyword word => named "keyword" ++ [("keyword", .string word.spelling)]
    | .identifier => named "identifier"
    | .number => named "number"
    | .operator => named "operator"
    | .string => named "string"
    | .comment => named "comment"

/-- A token. -/
def Token.json (token : Token) : Json :=
  .object [("kind", token.kind.json), ("text", .string token.text), ("line", .nat token.line),
    ("column", .nat token.column)]

/-- A value of a signal. -/
def Json.value (value : Value) : Json :=
  .int value.toInt

/-- A list of statement numbers. -/
def Json.body (body : List Nat) : Json :=
  .array (body.map .nat)

def Port.json (port : Port) : Json :=
  .object [("name", .string port.name), ("direction", .string port.direction.spelling),
    ("width", .nat port.width), ("signed", .bool port.signed), ("line", .nat port.line)]

/-- A signal; the initial value stands there only if there is one. -/
def Signal.json (signal : Signal) : Json :=
  .object ([("name", .string signal.name), ("kind", .string signal.kind.spelling),
    ("width", .nat signal.width), ("signed", .bool signal.signed)] ++
    (signal.initialValue.map fun value => ("initial_value", Json.value value)).toList ++
    [("line", .nat signal.line)])

def Parameter.json (parameter : Parameter) : Json :=
  .object [("name", .string parameter.name), ("value", .value parameter.value),
    ("local", .bool parameter.isLocal), ("line", .nat parameter.line)]

def AlwaysBlock.json (block : AlwaysBlock) : Json :=
  .object [("sensitivity_list", .strings block.sensitivityList), ("body", .body block.body),
    ("source_line", .nat block.line)]

def Assign.json (assign : Assign) : Json :=
  .object [("target", .string assign.target), ("expression_text", .string assign.expression),
    ("source_line", .nat assign.line)]

def Instance.json (item : Instance) : Json :=
  .object [("module_name", .string item.moduleName),
    ("instance_name", .string item.instanceName),
    ("connections", .array (item.connections.map fun connection =>
      .strings [connection.1, connection.2])),
    ("line", .nat item.line)]

def CaseArm.json (arm : CaseArm) : Json :=
  .object [("labels", .strings arm.labels), ("body", .body arm.body)]

def Statement.json : Statement → Json
  | assign target expression blocking line =>
    .object [("kind", .string "assign"), ("target", .string target), ("expr", .string expression),
      ("blocking", .bool blocking), ("line", .nat line)]
  | branch condition thenBody elseBody =>
    .object [("kind", .string "if"), ("condition", .string condition),
      ("then_body", .body thenBody), ("else_body", .body elseBody)]
  | select subject arms otherwise =>
    .object [("kind", .string "case"), ("subject", .string subject),
      ("arms", .array (arms.map CaseArm.json)), ("default", .body otherwise)]

def Module.json (module : Module) : Json :=
  .object [("name", .string module.name), ("ports", .array (module.ports.map Port.json)),
    ("signals", .array (module.signals.map Signal.json)),
    ("parameters", .array (module.parameters.map Parameter.json)),
    ("always_blocks", .array (module.alwaysBlocks.map AlwaysBlock.json)),
    ("assigns", .array (module.assigns.map Assign.json)),
    ("instances", .array (module.instances.map Instance.json)),
    ("statements", .array (module.statements.items.toList.map Statement.json))]

end MiniVerilog
