import MiniVerilog.Decimal.Binary

/-! # Severities and codes of diagnostics -/

namespace MiniVerilog

/-- How grave a diagnostic is. -/
inductive Severity where
  | warning | error
  deriving DecidableEq, Repr

namespace Severity

/-- The word for the severity. -/
def spelling : Severity → String
  | warning => "warning"
  | error => "error"

/-- The letter that short codes of this severity start with. -/
def letter : Severity → Char
  | warning => 'W'
  | error => 'E'

end Severity

/-- What a diagnostic is about. -/
inductive DiagnosticCode where
  | nestedModule
  | invalidModuleName
  | missingPortList
  | unmatchedEndmodule
  | missingSemicolon
  | missingAssignment
  | invalidAlwaysBlock
  | missingEndmodule
  | unmatchedBrackets
  | unmatchedParentheses
  | unmatchedBeginEnd
  | missingEndcase
  | implicitSensitivity
  deriving DecidableEq, Repr

namespace DiagnosticCode

/-- Every code once, in the order of their numbers. -/
def all : List DiagnosticCode :=
  [nestedModule, invalidModuleName, missingPortList, unmatchedEndmodule, missingSemicolon,
    missingAssignment, invalidAlwaysBlock, missingEndmodule, unmatchedBrackets,
    unmatchedParentheses, unmatchedBeginEnd, missingEndcase, implicitSensitivity]

/-- The name of the code. -/
def spelling : DiagnosticCode → String
  | nestedModule => "NESTED_MODULE"
  | invalidModuleName => "INVALID_MODULE_NAME"
  | missingPortList => "MISSING_PORT_LIST"
  | unmatchedEndmodule => "UNMATCHED_ENDMODULE"
  | missingSemicolon => "MISSING_SEMICOLON"
  | missingAssignment => "MISSING_ASSIGNMENT"
  | invalidAlwaysBlock => "INVALID_ALWAYS_BLOCK"
  | missingEndmodule => "MISSING_ENDMODULE"
  | unmatchedBrackets => "UNMATCHED_BRACKETS"
  | unmatchedParentheses => "UNMATCHED_PARENTHESES"
  | unmatchedBeginEnd => "UNMATCHED_BEGIN_END"
  | missingEndcase => "MISSING_ENDCASE"
  | implicitSensitivity => "IMPLICIT_SENSITIVITY"

/-- The code with a name. -/
def ofSpelling? (name : String) : Option DiagnosticCode :=
  all.find? fun code => code.spelling = name

/-- The severity that diagnostics with the code have. -/
def category : DiagnosticCode → Severity
  | implicitSensitivity => .warning
  | _ => .error

/-- The number of the code. Errors count from 101 and warnings from 201. -/
def number : DiagnosticCode → Nat
  | nestedModule => 101
  | invalidModuleName => 102
  | missingPortList => 103
  | unmatchedEndmodule => 104
  | missingSemicolon => 105
  | missingAssignment => 106
  | invalidAlwaysBlock => 107
  | missingEndmodule => 108
  | unmatchedBrackets => 109
  | unmatchedParentheses => 110
  | unmatchedBeginEnd => 111
  | missingEndcase => 112
  | implicitSensitivity => 201

/-- The letter of the severity and three digits. -/
def shortName (code : DiagnosticCode) : String :=
  String.ofList [code.category.letter] ++ Decimal.padZeros 3 (toString code.number)

end DiagnosticCode

end MiniVerilog
