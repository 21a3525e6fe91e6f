import MiniVerilog.Lint.Report
import MiniVerilog.Lint.Word
import MiniVerilog.Number.Constant
import MiniVerilog.Token.Basic

/-! # Declarations on one line

Ports, signals and parameters are read from the atoms of a segment. What is not
understood is left out.
-/

namespace MiniVerilog.Lint

namespace Report

/-- The value of a constant expression under the parameters found so far. -/
def fold (report : Report) (atoms : List String) : Option Value :=
  Constant.fold report.constant? atoms

/-- The width of a range, given the atoms between its brackets. -/
def widthOf (report : Report) (inner : List String) : Nat :=
  match inner.dropWhile (· != ":") with
  | [] => 1
  | _ :: low =>
    match report.fold (inner.takeWhile (· != ":")), report.fold low with
    | some high, some low => Value.rangeWidth high low
    | _, _ => 1

/-- Reads a range if there is one, and gives its width and the atoms after it. A
range that is not closed takes all atoms. -/
def takeWidth (report : Report) (atoms : List String) : Nat × List String :=
  match atoms with
  | "[" :: rest =>
    match rest.dropWhile (· != "]") with
    | [] => (1, [])
    | _ :: after => (report.widthOf (rest.takeWhile (· != "]")), after)
  | _ => (1, atoms)

/-- A width leaves no more atoms than there were. The recursion of the readers ends by this and the
lemmas below. -/
theorem length_takeWidth_le (report : Report) (atoms : List String) :
    (report.takeWidth atoms).2.length ≤ atoms.length := by
  unfold takeWidth
  split
  next rest =>
    have shorter : (rest.dropWhile (· != "]")).length ≤ rest.length :=
      (List.dropWhile_sublist _).length_le
    split
    · simp
    next first after same =>
      rw [same] at shorter
      simp only [List.length_cons] at *
      omega
  · exact Nat.le_refl _

/-- An atom that can be the name of a port. -/
def isPortName (atom : String) : Bool :=
  isName atom && !isDeclarationWord atom

/-- Reads port names. A comma goes on with the list only if a name follows. -/
def takePortNames : List String → List String × List String
  | [] => ([], [])
  | name :: rest =>
    if isPortName name then
      match rest with
      | comma :: next :: after =>
        if comma == "," && isPortName next then
          let following := takePortNames (next :: after)
          (name :: following.1, following.2)
        else ([name], rest)
      | _ => ([name], rest)
    else ([], name :: rest)

/-- The names of ports leave no more atoms than there were. -/
theorem length_takePortNames_le (atoms : List String) :
    (takePortNames atoms).2.length ≤ atoms.length := by
  fun_induction takePortNames atoms with
  | case1 => simp
  | case2 name _ comma next after _ following shorter =>
    change following.2.length ≤ _ at shorter
    simp only [List.length_cons] at *
    omega
  | case3 => simp
  | case4 => simp
  | case5 => simp

/-- The words between the direction and the range of a port. -/
def isPortModifier (atom : String) : Bool :=
  atom == "reg" || atom == "wire" || atom == "logic" || atom == "signed"

/-- Adds the ports of a declaration, and variables of the same names if they are
declared as such. -/
def addPorts (report : Report) (line : Nat) (direction : Direction) (modifiers : List String)
    (width : Nat) (names : List String) : Report :=
  let signed := modifiers.contains "signed"
  { report with
    ports := report.ports ++ names.map fun name => ⟨name, direction, width, signed, line⟩
    signals := report.signals ++
      if modifiers.contains "reg" then
        names.map fun name => ⟨name, .reg, width, signed, none, line⟩
      else [] }

/-- Reads a port declaration after its direction. -/
def collectPorts (report : Report) (line : Nat) (direction : Direction) (atoms : List String) :
    Report × List String :=
  let range := report.takeWidth (atoms.dropWhile isPortModifier)
  let names := takePortNames range.2
  (report.addPorts line direction (atoms.takeWhile isPortModifier) range.1 names.1, names.2)

theorem length_collectPorts_le (report : Report) (line : Nat) (direction : Direction)
    (atoms : List String) :
    (report.collectPorts line direction atoms).2.length ≤ atoms.length :=
  Nat.le_trans (length_takePortNames_le _)
    (Nat.le_trans (length_takeWidth_le _ _) (List.dropWhile_sublist _).length_le)

/-- The names in a signal declaration: the first one after each comma outside
brackets. -/
def signalNames (depth : Int) (expected : Bool) : List String → List String
  | [] => []
  | atom :: rest =>
    if bracketNesting atom ≠ 0 then signalNames (depth + bracketNesting atom) expected rest
    else if atom = "," ∧ depth = 0 then signalNames depth true rest
    else if expected ∧ depth = 0 ∧ isName atom then atom :: signalNames depth false rest
    else signalNames depth expected rest

/-- Reads a signal declaration after its kind. -/
def collectSignals (report : Report) (line : Nat) (kind : SignalKind) (atoms : List String) :
    Report :=
  let signed := atoms.head? == some "signed"
  let range := report.takeWidth (if signed then atoms.drop 1 else atoms)
  let names := signalNames 0 true range.2
  { report with
    signals := report.signals ++ names.map fun name => ⟨name, kind, range.1, signed, none, line⟩ }

/-- The atoms of a value, up to a comma or a closing bracket outside brackets, and
the atoms from there on. -/
def takeValue (depth : Int) : List String → List String × List String
  | [] => ([], [])
  | atom :: rest =>
    if depth = 0 ∧ (atom = "," ∨ bracketNesting atom < 0) then ([], atom :: rest)
    else
      let following := takeValue (depth + bracketNesting atom) rest
      (atom :: following.1, following.2)

theorem length_takeValue_le (depth : Int) (atoms : List String) :
    (takeValue depth atoms).2.length ≤ atoms.length := by
  fun_induction takeValue depth atoms with
  | case1 => simp
  | case2 => simp
  | case3 depth atom rest _ following shorter =>
    change following.2.length ≤ _ at shorter
    simp only [List.length_cons]
    omega

/-- Adds a parameter. A value that is not known is 0. -/
def addParameter (report : Report) (line : Nat) (isLocal : Bool) (name : String)
    (value : List String) : Report :=
  { report with
    parameters := report.parameters ++ [⟨name, (report.fold value).getD 0, isLocal, line⟩] }

/-- A comma goes on with a list of parameters only if a name with a value
follows. -/
def continuesParameters : List String → Bool
  | comma :: _ :: equals :: _ => comma == "," && equals == "="
  | _ => false

/-- Reads names with values, which commas separate. -/
def collectParameterNames (report : Report) (line : Nat) (isLocal : Bool)
    (atoms : List String) : Report × List String :=
  match atoms with
  | name :: "=" :: rest =>
    if isName name then
      let value := takeValue 0 rest
      let report := report.addParameter line isLocal name value.1
      if continuesParameters value.2 then
        report.collectParameterNames line isLocal (value.2.drop 1)
      else (report, value.2)
    else (report, atoms)
  | _ => (report, atoms)
termination_by atoms.length
decreasing_by
  have shorter := length_takeValue_le 0 rest
  simp only [List.length_cons, List.length_drop]
  omega

/-- The names of parameters leave no more atoms than there were. -/
theorem length_collectParameterNames_le (report : Report) (line : Nat) (isLocal : Bool)
    (atoms : List String) :
    (report.collectParameterNames line isLocal atoms).2.length ≤ atoms.length := by
  fun_induction collectParameterNames report line isLocal atoms with
  | case1 report name rest _ value added _ shorter =>
    have length : value.2.length ≤ _ := length_takeValue_le 0 rest
    simp only [List.length_cons, List.length_drop] at *
    omega
  | case2 report name rest _ value =>
    have length : value.2.length ≤ _ := length_takeValue_le 0 rest
    simp only [List.length_cons]
    omega
  | case3 => simp
  | case4 => simp

/-- Reads a parameter declaration after its first word. -/
def collectParameters (report : Report) (line : Nat) (isLocal : Bool) (atoms : List String) :
    Report × List String :=
  let untyped := atoms.dropWhile fun atom => atom == "signed" || atom == "integer"
  report.collectParameterNames line isLocal (report.takeWidth untyped).2

theorem length_collectParameters_le (report : Report) (line : Nat) (isLocal : Bool)
    (atoms : List String) :
    (report.collectParameters line isLocal atoms).2.length ≤ atoms.length :=
  Nat.le_trans (length_collectParameterNames_le _ _ _ _)
    (Nat.le_trans (length_takeWidth_le _ _) (List.dropWhile_sublist _).length_le)

/-- Reads the port and parameter declarations that start anywhere among atoms. -/
def collect (report : Report) (line : Nat) (atoms : List String) : Report :=
  match atoms with
  | [] => report
  | atom :: rest =>
    match Direction.ofSpelling? atom with
    | some direction =>
      (report.collectPorts line direction rest).1.collect line
        (report.collectPorts line direction rest).2
    | none =>
      if atom == "parameter" || atom == "localparam" then
        (report.collectParameters line (atom == "localparam") rest).1.collect line
          (report.collectParameters line (atom == "localparam") rest).2
      else report.collect line rest
termination_by atoms.length
decreasing_by
  · have shorter := length_collectPorts_le report line direction rest
    simp only [List.length_cons]
    omega
  · have shorter := length_collectParameters_le report line (atom == "localparam") rest
    simp only [List.length_cons]
    omega
  · simp

end Report

end MiniVerilog.Lint
