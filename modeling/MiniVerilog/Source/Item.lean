import MiniVerilog.Module.Declaration
import MiniVerilog.Source.Procedure

/-! # The items of a module in source text

A module is a header and a list of items: declarations, continuous assignments,
always blocks and instances. Items are read one after another up to `endmodule`
or the next `module`; what is not understood is skipped.
-/

namespace MiniVerilog.Source

/-- A name in a declaration, with the words of the value it is given. -/
structure Declarator where
  name : String
  line : Nat
  initial : Option (List String)
  deriving DecidableEq, Repr

/-- An item of a module as it is written. -/
inductive Item where
  | ports (direction : Direction) (isReg signed : Bool) (range : Option Range)
      (names : List Declarator)
  | signals (kind : SignalKind) (signed : Bool) (range : Option Range)
      (names : List Declarator)
  | parameters (isLocal : Bool) (names : List Declarator)
  | assign (target expression : String) (line : Nat)
  | always (sensitivityList : List String) (body : List Procedure) (line : Nat)
  | instanceOf (declaration : Instance)

/-- The word `signed` before a range. -/
def isSignedMark (token : Token) : Bool :=
  token.isIdentifier && token.text == "signed"

/-- Reads the names of a port declaration. -/
def takePortNames : List Token → List Declarator × List Token
  | [] => ([], [])
  | token :: rest =>
    if token.isIdentifier then
      match rest with
      | comma :: next :: after =>
        if commaContinues (comma :: next :: after) then
          let (names, rest) := takePortNames (next :: after)
          (⟨token.text, token.line, none⟩ :: names, rest)
        else ([⟨token.text, token.line, none⟩], rest)
      | _ => ([⟨token.text, token.line, none⟩], rest)
    else ([], token :: rest)

/-- A reader leaves no more tokens than it was given. This and the lemmas below are what the
recursion of the readers ends by. -/
theorem length_takePortNames_le (tokens : List Token) :
    (takePortNames tokens).2.length ≤ tokens.length := by
  fun_induction takePortNames tokens <;> simp_all
  omega

/-- The tokens at which the initial value of a signal ends. -/
def endsInitial (token : Token) : Bool :=
  token.isOperator "," || token.isOperator ";"

/-- Reads an initial value if there is one. -/
def takeInitial (stop : Token → Bool) (tokens : List Token) :
    Option (List String) × List Token :=
  if headIs (Token.isOperator "=") tokens then
    let (words, rest) := takeUntil stop 0 (tokens.drop 1)
    (some words, rest)
  else (none, tokens)

theorem length_takeInitial_le (stop : Token → Bool) (tokens : List Token) :
    (takeInitial stop tokens).2.length ≤ tokens.length := by
  unfold takeInitial
  split
  · exact Nat.le_trans (length_takeUntil_le _ _ _) (by simp)
  · exact Nat.le_refl _

/-- Reads the names of a signal declaration with their initial values. Array
dimensions after a name are skipped. -/
def takeSignalNames (tokens : List Token) : List Declarator × List Token :=
  match tokens with
  | [] => ([], [])
  | token :: rest =>
    if token.isIdentifier then
      let initial := takeInitial endsInitial (skipRanges rest)
      let declarator := ⟨token.text, token.line, initial.1⟩
      if commaContinues initial.2 then
        let following := takeSignalNames (initial.2.drop 1)
        (declarator :: following.1, following.2)
      else ([declarator], initial.2)
    else ([], token :: rest)
termination_by tokens.length
decreasing_by
  have dimensions := length_skipRanges_le rest
  have value := length_takeInitial_le endsInitial (skipRanges rest)
  simp only [List.length_cons, List.length_drop]
  omega

/-- The names of signals leave no more tokens than there were, as each name takes one. -/
theorem length_takeSignalNames_le (tokens : List Token) :
    (takeSignalNames tokens).2.length ≤ tokens.length := by
  fun_induction takeSignalNames tokens with
  | case1 => simp
  | case2 token rest _ initial declarator _ following shorter =>
    have dimensions := length_skipRanges_le rest
    have value : initial.2.length ≤ _ := length_takeInitial_le endsInitial (skipRanges rest)
    change following.2.length ≤ _ at shorter
    simp only [List.length_cons, List.length_drop] at *
    omega
  | case3 token rest _ initial =>
    have dimensions := length_skipRanges_le rest
    have value : initial.2.length ≤ _ := length_takeInitial_le endsInitial (skipRanges rest)
    simp only [List.length_cons]
    omega
  | case4 => simp

/-- The tokens at which the value of a parameter ends. -/
def endsParameter (token : Token) : Bool :=
  token.isOperator "," || token.isOperator ";" || token.isOperator ")"

/-- Reads names with values; a name without a value ends the list and is lost. -/
def takeParameterNames (tokens : List Token) : List Declarator × List Token :=
  match tokens with
  | [] => ([], [])
  | token :: rest =>
    if token.isIdentifier && headIs (Token.isOperator "=") rest then
      let value := takeUntil endsParameter 0 (rest.drop 1)
      let declarator := ⟨token.text, token.line, some value.1⟩
      if commaContinues value.2 then
        let following := takeParameterNames (value.2.drop 1)
        (declarator :: following.1, following.2)
      else ([declarator], value.2)
    else ([], skipIf Token.isIdentifier (token :: rest))
termination_by tokens.length
decreasing_by
  have value := length_takeUntil_le endsParameter 0 (rest.drop 1)
  simp only [List.length_cons, List.length_drop] at *
  omega

/-- The names of parameters leave no more tokens than there were. -/
theorem length_takeParameterNames_le (tokens : List Token) :
    (takeParameterNames tokens).2.length ≤ tokens.length := by
  fun_induction takeParameterNames tokens with
  | case1 => simp
  | case2 token rest _ value declarator _ following shorter =>
    have length : value.2.length ≤ _ := length_takeUntil_le endsParameter 0 (rest.drop 1)
    change following.2.length ≤ _ at shorter
    simp only [List.length_cons, List.length_drop] at *
    omega
  | case3 token rest _ value =>
    have length : value.2.length ≤ _ := length_takeUntil_le endsParameter 0 (rest.drop 1)
    simp only [List.length_cons, List.length_drop] at *
    omega
  | case4 token rest => exact length_skipIf_le Token.isIdentifier (token :: rest)

/-- Reads the list after `parameter` or `localparam`. A type before the names
means nothing. -/
def takeParameters (tokens : List Token) : List Declarator × List Token :=
  let tokens := skipIf isSignedMark tokens
  let tokens := skipIf (·.text == "integer") tokens
  takeParameterNames (takeRange? tokens).2

theorem length_takeParameters_le (tokens : List Token) :
    (takeParameters tokens).2.length ≤ tokens.length := by
  unfold takeParameters
  exact Nat.le_trans (length_takeParameterNames_le _)
    (Nat.le_trans (length_takeRange?_le _)
      (Nat.le_trans (length_skipIf_le _ _) (length_skipIf_le _ _)))

/-- A name that can be that of a module or an instance. System names and the
words that open other constructs cannot. -/
def isInstanceName (text : String) : Bool :=
  text.toList.head? != some '$' &&
    !(text == "initial" || text == "final" || text == "generate")

/-- An instance starts here: a module name, and then either an instance name with
connections or parameter values. -/
def startsInstance : List Token → Bool
  | first :: second :: third :: _ =>
    isInstanceName first.text &&
      if second.isIdentifier then isInstanceName second.text && third.isOperator "("
      else second.isOperator "#" && third.isOperator "("
  | _ => false

/-- The tokens at which a connection by position ends. -/
def endsConnection (token : Token) : Bool :=
  token.isOperator "," || token.isOperator ")"

/-- Reads the connections of an instance up to the closing parenthesis. -/
def takeConnections (tokens : List Token) : List (String × String) × List Token :=
  match tokens with
  | [] => ([], [])
  | token :: rest =>
    if token.isOperator ")" then ([], token :: rest)
    else if token.isOperator "," then takeConnections rest
    else if token.isOperator "." then
      let port := (rest.head?.filter Token.isIdentifier).map (·.text)
      let net := takeParenthesised (skipIf Token.isIdentifier rest)
      let following := takeConnections net.2
      ((port.getD "", joined net.1) :: following.1, following.2)
    else
      let net := takeUntil endsConnection 0 (token :: rest)
      if net.2.length < (token :: rest).length then
        let following := takeConnections net.2
        (("", joined net.1) :: following.1, following.2)
      else ([], token :: rest)
termination_by tokens.length
decreasing_by
  · simp
  · have named := length_skipIf_le Token.isIdentifier rest
    have net := length_takeParenthesised_le (skipIf Token.isIdentifier rest)
    simp only [List.length_cons]
    omega
  · assumption

/-- Connections leave no more tokens than there were, as each takes one at least. -/
theorem length_takeConnections_le (tokens : List Token) :
    (takeConnections tokens).2.length ≤ tokens.length := by
  fun_induction takeConnections tokens with
  | case1 => simp
  | case2 => simp
  | case3 => simp only [List.length_cons]; omega
  | case4 token rest _ _ _ port net following shorter =>
    have named := length_skipIf_le Token.isIdentifier rest
    have whole : net.2.length ≤ _ :=
      length_takeParenthesised_le (skipIf Token.isIdentifier rest)
    change following.2.length ≤ _ at shorter
    simp only [List.length_cons]
    omega
  | case5 token rest _ _ _ net fewer following shorter =>
    change following.2.length ≤ _ at shorter
    exact Nat.le_trans shorter (Nat.le_of_lt fewer)
  | case6 => simp

/-- Reads the connections of an instance with their parentheses, if there are
any. -/
def takeConnectionList (tokens : List Token) : List (String × String) × List Token :=
  if headIs (Token.isOperator "(") tokens then
    let connections := takeConnections (tokens.drop 1)
    (connections.1, skipIf (Token.isOperator ")") connections.2)
  else ([], tokens)

theorem length_takeConnectionList_le (tokens : List Token) :
    (takeConnectionList tokens).2.length ≤ tokens.length := by
  unfold takeConnectionList
  split
  · exact Nat.le_trans (length_skipIf_le _ _)
      (Nat.le_trans (length_takeConnections_le _) (by simp))
  · exact Nat.le_refl _

/-- The tokens after the parameter values of an instance. -/
def skipParameterValues (tokens : List Token) : List Token :=
  if headIs (Token.isOperator "#") tokens then (takeParenthesised (tokens.drop 1)).2 else tokens

theorem length_skipParameterValues_le (tokens : List Token) :
    (skipParameterValues tokens).length ≤ tokens.length := by
  unfold skipParameterValues
  split
  · exact Nat.le_trans (length_takeParenthesised_le _) (by simp)
  · exact Nat.le_refl _

/-- Reads an instance after its module name, when the parameter values have been
skipped. -/
def takeInstanceName (moduleName : Token) : List Token → List Item × List Token
  | [] => ([], [])
  | name :: rest =>
    if name.isIdentifier then
      let connections := takeConnectionList rest
      ([.instanceOf ⟨moduleName.text, name.text, connections.1, moduleName.line⟩],
        skipIf (Token.isOperator ";") connections.2)
    else ([], skipStatement 0 (name :: rest))

/-- An instance leaves no more tokens than there were, with a name or without one. -/
theorem length_takeInstanceName_le (moduleName : Token) (tokens : List Token) :
    (takeInstanceName moduleName tokens).2.length ≤ tokens.length := by
  unfold takeInstanceName
  split
  · exact Nat.le_refl _
  · split
    · exact Nat.le_trans (length_skipIf_le _ _)
        (Nat.le_trans (length_takeConnectionList_le _) (by simp))
    · exact length_skipStatement_le _ _

/-- Reads an instance after its module name. -/
def takeInstance (moduleName : Token) (tokens : List Token) : List Item × List Token :=
  takeInstanceName moduleName (skipParameterValues tokens)

theorem length_takeInstance_le (moduleName : Token) (tokens : List Token) :
    (takeInstance moduleName tokens).2.length ≤ tokens.length :=
  Nat.le_trans (length_takeInstanceName_le _ _) (length_skipParameterValues_le _)

/-- Reads a port declaration after its direction. -/
def takePorts (direction : Direction) (tokens : List Token) : Item × List Token :=
  let isReg := headIs (Token.isKeyword .reg) tokens
  let tokens := skipIf (fun token => token.isKeyword .reg || token.isKeyword .wire) tokens
  let signed := headIs isSignedMark tokens
  let (range, tokens) := takeRange? (skipIf isSignedMark tokens)
  let (names, rest) := takePortNames tokens
  (.ports direction isReg signed range names, rest)

theorem length_takePorts_le (direction : Direction) (tokens : List Token) :
    (takePorts direction tokens).2.length ≤ tokens.length := by
  unfold takePorts
  exact Nat.le_trans (length_takePortNames_le _)
    (Nat.le_trans (length_takeRange?_le _)
      (Nat.le_trans (length_skipIf_le _ _) (length_skipIf_le _ _)))

/-- Reads a signal declaration after its kind. -/
def takeSignals (kind : SignalKind) (tokens : List Token) : Item × List Token :=
  let signed := headIs isSignedMark tokens
  let (range, tokens) := takeRange? (skipIf isSignedMark tokens)
  let (names, rest) := takeSignalNames tokens
  (.signals kind signed range names, skipIf (Token.isOperator ";") rest)

theorem length_takeSignals_le (kind : SignalKind) (tokens : List Token) :
    (takeSignals kind tokens).2.length ≤ tokens.length := by
  unfold takeSignals
  exact Nat.le_trans (length_skipIf_le _ _)
    (Nat.le_trans (length_takeSignalNames_le _)
      (Nat.le_trans (length_takeRange?_le _) (length_skipIf_le _ _)))

/-- Reads a continuous assignment after its target. -/
def takeAssignment? (target : Token) (line : Nat) (tokens : List Token) :
    List Item × List Token :=
  if headIs (Token.isOperator "=") tokens then
    let words := takeUntil (Token.isOperator ";") 0 (tokens.drop 1)
    ([.assign target.text (expression words.1) line], skipIf (Token.isOperator ";") words.2)
  else ([], skipStatement 0 tokens)

theorem length_takeAssignment?_le (target : Token) (line : Nat) (tokens : List Token) :
    (takeAssignment? target line tokens).2.length ≤ tokens.length := by
  unfold takeAssignment?
  split
  · exact Nat.le_trans (length_skipIf_le _ _)
      (Nat.le_trans (length_takeUntil_le _ _ _) (by simp))
  · exact length_skipStatement_le _ _

/-- Reads a continuous assignment after `assign`; one without a target or without
`=` is skipped. -/
def takeAssign (line : Nat) : List Token → List Item × List Token
  | [] => ([], [])
  | target :: rest =>
    if target.isIdentifier then takeAssignment? target line (skipRanges rest)
    else ([], skipStatement 0 (target :: rest))

theorem length_takeAssign_le (line : Nat) (tokens : List Token) :
    (takeAssign line tokens).2.length ≤ tokens.length := by
  unfold takeAssign
  split
  · exact Nat.le_refl _
  · split
    · exact Nat.le_trans (length_takeAssignment?_le _ _ _)
        (Nat.le_trans (length_skipRanges_le _) (by simp))
    · exact length_skipStatement_le _ _

/-- The words that only separate the signals of an event control. -/
def separatesEvents (word : String) : Bool :=
  word == "," || word == "or" || word == "(" || word == ")"

/-- Reads the signals of an event control after `@`. -/
def takeEvents : List Token → List String × List Token
  | [] => ([], [])
  | first :: rest =>
    if first.isOperator "*" then (["*"], rest)
    else if first.isOperator "(" then
      let words := takeUntil (Token.isOperator ")") 0 rest
      (words.1.filter fun word => !separatesEvents word,
        skipIf (Token.isOperator ")") words.2)
    else if first.isIdentifier then ([first.text], rest)
    else ([], first :: rest)

theorem length_takeEvents_le (tokens : List Token) :
    (takeEvents tokens).2.length ≤ tokens.length := by
  unfold takeEvents
  split
  · exact Nat.le_refl _
  · split
    · simp
    · split
      · exact Nat.le_trans (length_skipIf_le _ _)
          (Nat.le_trans (length_takeUntil_le _ _ _) (by simp))
      · split <;> simp

/-- Reads an event control if there is one. -/
def takeEventControl (tokens : List Token) : List String × List Token :=
  if headIs (Token.isOperator "@") tokens then takeEvents (tokens.drop 1) else ([], tokens)

theorem length_takeEventControl_le (tokens : List Token) :
    (takeEventControl tokens).2.length ≤ tokens.length := by
  unfold takeEventControl
  split
  · exact Nat.le_trans (length_takeEvents_le _) (by simp)
  · exact Nat.le_refl _

/-- Reads an always block after `always`. -/
def takeAlways (line : Nat) (tokens : List Token) : Item × List Token :=
  let (sensitivityList, tokens) := takeEventControl tokens
  let body := readStatement tokens
  (.always sensitivityList body.value line, body.rest)

theorem length_takeAlways_le (line : Nat) (tokens : List Token) :
    (takeAlways line tokens).2.length ≤ tokens.length :=
  Nat.le_trans (readStatement _).length_le (length_takeEventControl_le tokens)

/-- The token that ends the body of a module. -/
def endsModule (token : Token) : Bool :=
  token.isKeyword .module_ || token.isKeyword .endmodule

/-- Reads what starts with the first token, or skips it. -/
def takeItem (first : Token) (rest : List Token) : List Item × List Token :=
  match first.kind with
  | .keyword .input => ([(takePorts .input rest).1], (takePorts .input rest).2)
  | .keyword .output => ([(takePorts .output rest).1], (takePorts .output rest).2)
  | .keyword .inout => ([(takePorts .inout rest).1], (takePorts .inout rest).2)
  | .keyword .wire => ([(takeSignals .wire rest).1], (takeSignals .wire rest).2)
  | .keyword .reg => ([(takeSignals .reg rest).1], (takeSignals .reg rest).2)
  | .keyword .parameter =>
    ([.parameters false (takeParameters rest).1],
      skipIf (Token.isOperator ";") (takeParameters rest).2)
  | .keyword .localparam =>
    ([.parameters true (takeParameters rest).1],
      skipIf (Token.isOperator ";") (takeParameters rest).2)
  | .keyword .always =>
    ([(takeAlways first.line rest).1], (takeAlways first.line rest).2)
  | .keyword .assign => takeAssign first.line rest
  | .keyword .function => ([], skipPast .endfunction rest)
  | .keyword .task => ([], skipPast .endtask rest)
  | .identifier =>
    if startsInstance (first :: rest) then takeInstance first rest else ([], rest)
  | _ => ([], rest)

/-- **An item leaves no more tokens than there were** behind its first one, so the items of a module
are read in finitely many steps. -/
theorem length_takeItem_le (first : Token) (rest : List Token) :
    (takeItem first rest).2.length ≤ rest.length := by
  unfold takeItem
  split
  · exact length_takePorts_le .input _
  · exact length_takePorts_le .output _
  · exact length_takePorts_le .inout _
  · exact length_takeSignals_le .wire _
  · exact length_takeSignals_le .reg _
  · exact Nat.le_trans (length_skipIf_le _ _) (length_takeParameters_le _)
  · exact Nat.le_trans (length_skipIf_le _ _) (length_takeParameters_le _)
  · exact length_takeAlways_le first.line _
  · exact length_takeAssign_le _ _
  · exact length_skipPast_le _ _
  · exact length_skipPast_le _ _
  · split
    · exact length_takeInstance_le _ _
    · exact Nat.le_refl _
  · exact Nat.le_refl _

/-- Reads the items of a module body, which ends at `endmodule` or at another
`module`. -/
def readItems (tokens : List Token) : List Item :=
  match tokens with
  | [] => []
  | first :: rest =>
    if endsModule first then []
    else (takeItem first rest).1 ++ readItems (takeItem first rest).2
termination_by tokens.length
decreasing_by
  have read := length_takeItem_le first rest
  simp only [List.length_cons]
  omega

/-- Finds the first module header and gives the module name and the tokens after
it. -/
def findHeader : List Token → Option (String × List Token)
  | opening :: name :: rest =>
    if opening.isKeyword .module_ && name.isIdentifier then some (name.text, rest)
    else findHeader (name :: rest)
  | _ => none

/-- A list of parameters starts here: after `parameter` or `localparam`, or with
a name that is given a value. -/
def startsParameters (first : Token) (rest : List Token) : Bool :=
  first.isKeyword .parameter || first.isKeyword .localparam ||
    (first.isIdentifier && headIs (Token.isOperator "=") rest)

/-- Reads the parameters of a header up to the closing parenthesis. -/
def takeHeaderParameters (tokens : List Token) : List Item × List Token :=
  match tokens with
  | [] => ([], [])
  | first :: rest =>
    if first.isOperator ")" then ([], rest)
    else if startsParameters first rest then
      let names := takeParameters (if first.isIdentifier then first :: rest else rest)
      if names.2.length < (first :: rest).length then
        let following := takeHeaderParameters names.2
        (.parameters (first.isKeyword .localparam) names.1 :: following.1, following.2)
      else ([.parameters (first.isKeyword .localparam) names.1], names.2)
    else takeHeaderParameters rest
termination_by tokens.length
decreasing_by
  · assumption
  · simp

/-- Reads the parameters of a header, if it has a list of them. -/
def readHeaderParameters (tokens : List Token) : List Item × List Token :=
  match tokens with
  | hash :: opening :: rest =>
    if hash.isOperator "#" && opening.isOperator "(" then takeHeaderParameters rest
    else ([], tokens)
  | _ => ([], tokens)

/-- The name and the items of the first module in a token list. -/
def readModule? (tokens : List Token) : Option (String × List Item) :=
  (findHeader tokens).map fun (name, rest) =>
    let parameters := readHeaderParameters rest
    (name, parameters.1 ++ readItems parameters.2)

end MiniVerilog.Source
