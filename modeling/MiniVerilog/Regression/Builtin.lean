import MiniVerilog.Regression.Registry
import MiniVerilog.Testbench.Basic

/-! # The built-in suites

Cases for every part of the library. All of them hold.
-/

namespace MiniVerilog.Regression.Builtin

/-- The number of places at which a text starts in another. -/
def occurrences (sought : List Char) : List Char → Nat
  | [] => if sought.isEmpty then 1 else 0
  | c :: cs => (if sought.isPrefixOf (c :: cs) then 1 else 0) + occurrences sought cs

/-- The number of places at which a string starts in another. -/
def occurrencesIn (text sought : String) : Nat :=
  occurrences sought.toList text.toList

/-- A flip-flop that keeps 1 once its clock has changed. -/
def flop : String :=
  "module t(input clk, output reg q); always @(posedge clk) q = 1; endmodule"

/-- A counter with a reset. -/
def counter : String :=
  String.join (["module counter(input clk, input rst, output reg [3:0] count);",
    "  always @(posedge clk) begin",
    "    if (rst)",
    "      count <= 0;",
    "    else",
    "      count <= count + 1;",
    "  end",
    "endmodule"].map (· ++ "\n"))

/-- Ports without a body. -/
def filter : String :=
  String.join (["module filter(",
    "    input clk,",
    "    input rst_n,",
    "    input [7:0] data_in,",
    "    output reg [7:0] data_out",
    ");",
    "endmodule"].map (· ++ "\n"))

/-- The texts of the tokens of a source. -/
def tokenTexts (source : String) : List String :=
  (Token.scan source).map (·.text)

def lexerCases : List Case := [
  { id := "lex-001", name := "module header positions", priority := .critical
    check := some fun _ => do
      let tokens := Token.scan "module m(a);"
      expectEqual "token count" toString tokens.length 6
      expectTrue "first kind" (tokens.head?.any (Token.isKeyword .module_))
      expectEqual "name column" (shownOption toString) (tokens[1]?.map (·.column)) (some 8) },
  { id := "lex-002", name := "comments survive as tokens"
    check := some fun _ => do
      let tokens := Token.scan "// header\nwire w; /* tail */"
      expectEqual "comment tokens" toString (tokens.countP fun token => token.kind == .comment) 2
      expectEqual "wire line" (shownOption toString) (tokens[1]?.map (·.line)) (some 2) },
  { id := "lex-003", name := "sized literals are single tokens"
    check := some fun _ =>
      expectEqual "texts" shownText (" ".intercalate (tokenTexts "x = 4'b1010 + 8'hFF;"))
        "x = 4'b1010 + 8'hFF ;" },
  { id := "lex-004", name := "unknown characters are dropped", category := .edgeCase
    check := some fun _ =>
      expectEqual "texts" (shownList shownText) (tokenTexts "a \u00A7 b") ["a", "b"] }]

def parserCases : List Case := [
  { id := "parse-001", name := "ANSI ports with widths", priority := .critical
    source := filter
    expectations := [.parses]
    check := some fun context => do
      let module ← context.module
      expectEqual "port count" toString module.ports.length 4
      expectEqual "data_in width" (shownOption toString) (module.widthOf? "data_in") (some 8)
      expectEqual "data_out direction" (shownOption Direction.spelling)
        ((module.port? "data_out").map (·.direction)) (some .output) },
  { id := "parse-002", name := "text without a module", category := .edgeCase
    source := "wire x; assign x = 1;"
    expectations := [.parseFails] },
  { id := "parse-003", name := "empty module is valid", category := .edgeCase
    source := "module t(); endmodule"
    expectations := [.parses, .valid] },
  { id := "parse-004", name := "always body becomes a statement tree"
    source := counter
    check := some fun context => do
      let module ← context.module
      expectEqual "always blocks" toString module.alwaysBlocks.length 1
      expectEqual "sensitivity" (shownList (shownList shownText))
        (module.alwaysBlocks.map (·.sensitivityList)) [["posedge", "clk"]]
      match (module.alwaysBlocks.flatMap (·.body)).map module.statements.get? with
      | some (.branch condition _ _) :: _ => expectEqual "condition" shownText condition "rst"
      | some _ :: _ => throw (.refused "expected if statement")
      | _ => throw (.refused "empty body") }]

def linterCases : List Case := [
  { id := "val-001", name := "balanced module has no errors", priority := .critical
    source := counter
    expectations := [.valid] },
  { id := "val-002", name := "missing endmodule reported once", priority := .high
    source := "module m(input a);\n  wire b;\n"
    expectations := [.diagnostic .missingEndmodule]
    check := some fun context =>
      expectEqual "error count" toString context.report.errors.length 1 },
  { id := "val-003", name := "implicit sensitivity is only a warning"
    source := "module m(input a, output reg y);\n  always @(*) y = a;\nendmodule\n"
    expectations := [.valid, .diagnostic .implicitSensitivity] },
  { id := "val-004", name := "unbalanced parentheses", category := .edgeCase
    source := "module m(input a;\nendmodule\n"
    expectations := [.diagnostic .unmatchedParentheses] },
  { id := "val-005", name := "parser and validator may disagree", category := .regression
    source := "module m(input a);\n  wire b\nendmodule\n"
    expectations := [.parses, .diagnostic .missingSemicolon] }]

/-- The value of an expression over named values. -/
def evaluated (values : List (String × Value)) (text : String) : Value :=
  Expression.evaluate (fun name => values.lookup name) text

/-- Fails unless an expression has a value. -/
def expectValue (values : List (String × Value)) (text : String) (value : Value) :
    Except Failure Unit :=
  expectEqual text (fun v => toString v.toInt) (evaluated values text) value

def evaluatorCases : List Case := [
  { id := "eval-001", name := "sized binary literal", priority := .critical
    check := some fun _ => expectValue [] "4'b1010" 10 },
  { id := "eval-002", name := "binary operators"
    check := some fun _ => do
      let values := [("a", 6), ("b", 3)]
      expectValue values "2 + 3" 5
      expectValue values "a & b" 2
      expectValue values "a == b" 0 },
  { id := "eval-003", name := "unbound names read as zero", category := .edgeCase
    check := some fun _ => expectValue [] "ghost + 1" 1 },
  { id := "eval-004", name := "malformed text degrades to zero", category := .edgeCase
    check := some fun _ =>
      ["", "a b c d", "1 / 0", "( 1", "4'q9", "1 << 99"].forM fun text => expectValue [] text 0 }]

def simulationCases : List Case := [
  { id := "sim-001", name := "one sample per step plus the initial one", priority := .critical
    source := flop
    steps := some 10
    expectations := [.samples 11] },
  { id := "sim-002", name := "flop without stimulus never fires", category := .integration
    source := flop
    steps := some 5
    expectations := [.waveform "q" [0, 0, 0, 0, 0, 0]] },
  { id := "sim-003", name := "flop fires from the first clock toggle", category := .integration
    priority := .high
    source := flop
    steps := some 5
    clocks := [⟨"clk", 1⟩]
    expectations := [.waveform "q" [0, 1, 1, 1, 1, 1]] },
  { id := "sim-004", name := "undeclared operands keep the target at zero"
    category := .edgeCase
    source := "module t(output y); assign y = a + b; endmodule"
    steps := some 4
    expectations := [.finalValue "y" 0] },
  { id := "sim-005", name := "edge triggering counts rising edges", category := .integration
    source := counter
    steps := some 8
    clocks := [⟨"clk", 1⟩]
    trigger := .edge
    expectations := [.finalValue "count" 4] },
  { id := "sim-006", name := "level triggering counts every toggle", category := .regression
    source := counter
    steps := some 20
    clocks := [⟨"clk", 1⟩]
    expectations := [.finalValue "count" 4] },
  { id := "sim-007", name := "parse failure surfaces as an error", category := .edgeCase
    check := some fun _ =>
      match MiniVerilog.simulate "not verilog" 3 with
      | .error .parseFailed => .ok ()
      | .error reason => .error (.refused ("expected a parse failure, got " ++ reason.message))
      | .ok _ => .error (.refused "expected a parse failure, got a waveform") },
  { id := "sim-008", name := "long run stays bounded", category := .performance
    priority := .low
    source := counter
    steps := some 2000
    clocks := [⟨"clk", 3⟩]
    check := some fun context => do
      let state ← context.state
      expectEqual "time" toString state.time 2000
      expectTrue "coverage cap" (state.stats.coverage ≤ 100.0) }]

def testbenchCases : List Case := [
  { id := "tb-001", name := "one declaration and connection per port", priority := .high
    source := filter
    check := some fun context => do
      let module ← context.module
      let text := Testbench.text module
      module.ports.forM fun port =>
        let connection := "(" ++ port.name ++ ")"
        expectEqual connection toString (occurrencesIn text connection) 1
      expectEqual "reg count" toString (occurrencesIn text "    reg ") 3
      expectEqual "wire count" toString (occurrencesIn text "    wire ") 1 },
  { id := "tb-002", name := "generation is idempotent"
    source := counter
    check := some fun context => do
      let module ← context.module
      expectEqual "second run" shownText (Testbench.text module) (Testbench.text module) },
  { id := "tb-003", name := "clock and reset stubs", category := .integration
    source := filter
    check := some fun context => do
      let text := Testbench.text (← context.module)
      expectTrue "clock stub" (occurrencesIn text "forever #5 clk = ~clk;" != 0)
      expectTrue "reset release" (occurrencesIn text "rst_n = 1;" != 0)
      expectTrue "finish" (occurrencesIn text "$finish;" != 0) }]

/-- The suites in the order in which a reader goes through the library. -/
def suites : List (String × List Case) := [
  ("lexer", lexerCases),
  ("parser", parserCases),
  ("validator", linterCases),
  ("evaluator", evaluatorCases),
  ("simulation", simulationCases),
  ("testbench", testbenchCases)]

/-- The registry of the built-in suites. -/
def registry : Registry :=
  suites.foldl (fun registry suite => registry.registerAll suite.1 suite.2) {}

end MiniVerilog.Regression.Builtin
