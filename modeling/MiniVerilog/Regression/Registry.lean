import MiniVerilog.NameMap
import MiniVerilog.Regression.Case

/-! # Registries of cases

A registry knows cases by their ids, and groups the ids into suites, which keep
the order in which they were registered.
-/

namespace MiniVerilog.Regression

/-- The reason why cases cannot be registered or selected. -/
inductive RegistryError where
  | duplicateCase (id : String)
  | unknownCase (id : String)
  | unknownSuite (name : String)
  deriving DecidableEq, Repr

/-- The wording of the error. -/
def RegistryError.message : RegistryError → String
  | duplicateCase id => "duplicate test case id '" ++ id ++ "'"
  | unknownCase id => "unknown test case '" ++ id ++ "'"
  | unknownSuite name => "unknown suite '" ++ name ++ "'"

/-- Cases by their ids, and the ids of each suite. -/
structure Registry where
  cases : NameMap Case := .empty
  suites : NameMap (List String) := .empty

/-- Which cases to run. -/
inductive Selection where
  | case (id : String)
  /-- The cases of suites, in this order. -/
  | suites (names : List String)
  | everything
  deriving DecidableEq, Repr

namespace Registry

/-- The registry with an id at the end of a suite, which is made if there is none. -/
def list (registry : Registry) (suite id : String) : Registry :=
  { registry with
    suites := registry.suites.insert suite ((registry.suites.get? suite).getD [] ++ [id]) }

/-- The registry with a case under its id. -/
def store (registry : Registry) (case : Case) : Registry :=
  { registry with cases := registry.cases.insert case.id case }

/-- Lists a case in a suite and stores it, unless its id is taken. -/
def enter (suite : String) (case : Case) : ExceptT RegistryError (StateM Registry) Unit := do
  if (← get).cases.contains case.id then throw (.duplicateCase case.id)
  modify (·.list suite case.id)
  modify (·.store case)

/-- The registry with one more case in a suite. -/
def register (registry : Registry) (suite : String) (case : Case) :
    Except RegistryError Registry :=
  match (enter suite case).run.run registry with
  | (.ok (), next) => .ok next
  | (.error reason, _) => .error reason

/-- Adds cases to a suite and leaves out those whose ids are taken. -/
def registerAll (registry : Registry) (suite : String) (cases : List Case) : Registry :=
  cases.foldl (fun registry case => ((registry.register suite case).toOption).getD registry)
    registry

/-- The case with an id. -/
def get? (registry : Registry) (id : String) : Option Case :=
  registry.cases.get? id

/-- The names of the suites in ascending order. -/
def suiteNames (registry : Registry) : List String :=
  registry.suites.names

/-- The cases of a suite in the order they were registered. -/
def suite (registry : Registry) (name : String) : Except RegistryError (List Case) :=
  match registry.suites.get? name with
  | some ids => .ok (ids.filterMap registry.get?)
  | none => .error (.unknownSuite name)

/-- All cases, suite by suite. -/
def all (registry : Registry) : List Case :=
  registry.suites.entries.flatMap fun entry => entry.2.filterMap registry.get?

/-- The number of cases. -/
def size (registry : Registry) : Nat :=
  registry.cases.size

/-- The selected cases. -/
def select (registry : Registry) : Selection → Except RegistryError (List Case)
  | .case id =>
    match registry.get? id with
    | some case => .ok [case]
    | none => .error (.unknownCase id)
  | .suites names => do return (← names.mapM registry.suite).flatten
  | .everything => .ok registry.all

end Registry

end MiniVerilog.Regression
