import MiniVerilog.Module.Always
import MiniVerilog.Module.Declaration

/-! # Modules

Everything that is known about one module: its declarations, its always blocks
and the pool of their statements.
-/

namespace MiniVerilog

/-- A module. -/
structure Module where
  name : String
  ports : List Port := []
  signals : List Signal := []
  parameters : List Parameter := []
  alwaysBlocks : List AlwaysBlock := []
  assigns : List Assign := []
  instances : List Instance := []
  statements : Pool Statement := .empty
  deriving DecidableEq, Repr

namespace Module

/-- The first port with a name. -/
def port? (module : Module) (name : String) : Option Port :=
  module.ports.find? fun port => port.name = name

/-- The first signal with a name. -/
def signal? (module : Module) (name : String) : Option Signal :=
  module.signals.find? fun signal => signal.name = name

/-- The first parameter with a name. -/
def parameter? (module : Module) (name : String) : Option Parameter :=
  module.parameters.find? fun parameter => parameter.name = name

/-- The value that an expression reads under the name of a parameter, which is
that of its last declaration. -/
def constant? (module : Module) (name : String) : Option Value :=
  (module.parameters.reverse.find? fun parameter => parameter.name = name).map (·.value)

/-- The declared width of a name; a signal hides a port. -/
def widthOf? (module : Module) (name : String) : Option Nat :=
  ((module.signal? name).map (·.width)).or ((module.port? name).map (·.width))

/-- The name is declared as a variable. -/
def isReg (module : Module) (name : String) : Bool :=
  (module.signal? name).any fun signal => signal.kind == .reg

/-- The statements of a body as trees. -/
def trees (module : Module) (body : List Nat) : List StatementTree :=
  StatementTree.ofBody module.statements body

/-- The names assigned in a body, each once, in the order of their first
assignment. -/
def assignedTargets (module : Module) (body : List Nat) : List String :=
  (StatementTree.targetsOfBody (module.trees body)).foldl
    (fun names name => if name ∈ names then names else names ++ [name]) []

end Module

end MiniVerilog
