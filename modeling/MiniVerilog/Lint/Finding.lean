import MiniVerilog.Diagnostic.Basic

/-! # Findings of the linter

What can be wrong with a source text, and how it is put into words.
-/

namespace MiniVerilog.Lint

/-- A finding about a line. -/
inductive Finding where
  /-- A module opens inside the module that was opened on a line. -/
  | nestedModule (enclosing column : Nat)
  | invalidModuleName (column : Nat)
  | missingPortList (column : Nat)
  | unmatchedEndmodule (column : Nat)
  /-- A declaration that opens with a word does not end in a semicolon. -/
  | openDeclaration (word : String)
  | openAssign
  | missingAssignment
  | invalidAlwaysBlock
  /-- The text ends inside the module that was opened on a line. -/
  | missingEndmodule (opened : Nat)
  | unmatchedBrackets
  | unmatchedParentheses
  | unmatchedBeginEnd
  | missingEndcase
  | implicitSensitivity
  deriving DecidableEq, Repr

namespace Finding

/-- The code of a finding. -/
def code : Finding → DiagnosticCode
  | nestedModule .. => .nestedModule
  | invalidModuleName _ => .invalidModuleName
  | missingPortList _ => .missingPortList
  | unmatchedEndmodule _ => .unmatchedEndmodule
  | openDeclaration _ => .missingSemicolon
  | openAssign => .missingSemicolon
  | missingAssignment => .missingAssignment
  | invalidAlwaysBlock => .invalidAlwaysBlock
  | missingEndmodule _ => .missingEndmodule
  | unmatchedBrackets => .unmatchedBrackets
  | unmatchedParentheses => .unmatchedParentheses
  | unmatchedBeginEnd => .unmatchedBeginEnd
  | missingEndcase => .missingEndcase
  | implicitSensitivity => .implicitSensitivity

/-- The wording of a finding. -/
def message : Finding → String
  | nestedModule .. => "module declared inside another module"
  | invalidModuleName _ => "module declaration has no valid name"
  | missingPortList _ => "module declaration has no port list"
  | unmatchedEndmodule _ => "`endmodule` without a matching `module`"
  | openDeclaration word => "`" ++ word ++ "` declaration is missing ';'"
  | openAssign => "assign statement is missing ';'"
  | missingAssignment => "assign statement has no '='"
  | invalidAlwaysBlock => "always block has neither an event control nor `begin`"
  | missingEndmodule _ => "end of file reached inside a module"
  | unmatchedBrackets => "unbalanced '[' and ']'"
  | unmatchedParentheses => "unbalanced '(' and ')'"
  | unmatchedBeginEnd => "unbalanced `begin` and `end`"
  | missingEndcase => "end of file reached inside a `case` statement"
  | implicitSensitivity => "always block uses an implicit sensitivity list"

/-- The column that a finding points at. -/
def column? : Finding → Option Nat
  | nestedModule _ column => some column
  | invalidModuleName column => some column
  | missingPortList column => some column
  | unmatchedEndmodule column => some column
  | _ => none

/-- What is added to explain a finding. -/
def notes : Finding → List String
  | nestedModule enclosing _ => ["enclosing module starts on line " ++ toString enclosing]
  | missingEndmodule opened => ["module starts on line " ++ toString opened]
  | implicitSensitivity => ["`@(*)` is sensitive to every signal the block reads"]
  | _ => []

/-- How a finding can be mended. -/
def help : Finding → List String
  | missingPortList _ => ["declare ports as `module name(...);`"]
  | openDeclaration _ => ["terminate the declaration with ';'"]
  | openAssign => ["terminate the statement with ';'"]
  | invalidAlwaysBlock => ["add a sensitivity list such as `@(posedge clk)`"]
  | missingEndmodule _ => ["add `endmodule`"]
  | missingEndcase => ["add `endcase`"]
  | _ => []

/-- The diagnostic for a finding about a line. -/
def diagnostic (finding : Finding) (line : Nat) : Diagnostic where
  severity := finding.code.category
  code := finding.code
  message := finding.message
  line := line
  column := finding.column?
  notes := finding.notes
  help := finding.help

end Finding

end MiniVerilog.Lint
