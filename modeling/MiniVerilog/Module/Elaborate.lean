import MiniVerilog.Module.Basic
import MiniVerilog.Number.Constant
import MiniVerilog.Source.Item
import MiniVerilog.Token.Scan

/-! # From source items to a module

The items of a module are added one after another. A range or a value may use
the parameters declared before it. A port or a signal that is declared again
takes the place of the earlier one. Statements go into the pool after the
statements of their bodies; the body of a loop is in the pool without being part
of any other body.
-/

namespace MiniVerilog

mutual

/-- Adds a statement to a pool and gives the numbers that stand for it. -/
def Source.Procedure.place (procedure : Source.Procedure) (pool : Pool Statement) :
    List Nat × Pool Statement :=
  match procedure with
  | .assign target expression blocking line =>
    let placed := pool.alloc (.assign target expression blocking line)
    ([placed.1], placed.2)
  | .branch condition thenBody elseBody =>
    let thenPart := placeBody thenBody pool
    let elsePart := placeBody elseBody thenPart.2
    let placed := elsePart.2.alloc (.branch condition thenPart.1 elsePart.1)
    ([placed.1], placed.2)
  | .select subject items =>
    let entries := placeItems items [] pool
    let placed := entries.2.2.alloc (.select subject entries.1 entries.2.1)
    ([placed.1], placed.2)
  | .loop body => ([], (placeBody body pool).2)

/-- Adds the statements of a body. -/
def placeBody (body : List Source.Procedure) (pool : Pool Statement) :
    List Nat × Pool Statement :=
  match body with
  | [] => ([], pool)
  | procedure :: following =>
    let first := procedure.place pool
    let others := placeBody following first.2
    (first.1 ++ others.1, others.2)

/-- Adds the entries of a case statement and gives its arms and its default body,
which is the last one written. -/
def placeItems (items : List Source.CaseItem) (otherwise : List Nat) (pool : Pool Statement) :
    List CaseArm × List Nat × Pool Statement :=
  match items with
  | [] => ([], otherwise, pool)
  | .arm labels body :: following =>
    let placed := placeBody body pool
    let others := placeItems following otherwise placed.2
    (⟨labels, placed.1⟩ :: others.1, others.2)
  | .otherwise body :: following =>
    let placed := placeBody body pool
    placeItems following placed.1 placed.2

end

/-- Puts an entry in the place of the first one with the same name, or at the
end. -/
def declare {α : Type} (nameOf : α → String) (entry : α) : List α → List α
  | [] => [entry]
  | first :: rest =>
    if nameOf first = nameOf entry then entry :: rest else first :: declare nameOf entry rest

namespace Module

/-- The value of a constant expression of this module. -/
def fold (module : Module) (words : List String) : Option Value :=
  Constant.fold module.constant? words

/-- The number of bits of a declaration: one without a range, or when a bound is
not known. -/
def widthOfRange (module : Module) : Option Source.Range → Nat
  | none => 1
  | some range =>
    match module.fold range.high, module.fold range.low with
    | some high, some low => Value.rangeWidth high low
    | _, _ => 1

/-- Declares a port. -/
def declarePort (module : Module) (port : Port) : Module :=
  { module with ports := declare Port.name port module.ports }

/-- Declares a signal. -/
def declareSignal (module : Module) (signal : Signal) : Module :=
  { module with signals := declare Signal.name signal module.signals }

/-- Declares a port, and a variable of the same name if the port is one. -/
def addPort (direction : Direction) (isReg signed : Bool) (width : Nat) (module : Module)
    (declarator : Source.Declarator) : Module :=
  let module := module.declarePort ⟨declarator.name, direction, width, signed, declarator.line⟩
  if isReg then
    module.declareSignal ⟨declarator.name, .reg, width, signed, none, declarator.line⟩
  else module

/-- Declares a signal. The initial value of a net is a continuous assignment. -/
def addSignal (kind : SignalKind) (signed : Bool) (width : Nat) (module : Module)
    (declarator : Source.Declarator) : Module :=
  let initialValue := match kind with
    | .reg => declarator.initial.bind module.fold
    | .wire => none
  let assigns := match kind, declarator.initial with
    | .wire, some words =>
      [⟨declarator.name, Source.expression words, declarator.line⟩]
    | _, _ => []
  { module with assigns := module.assigns ++ assigns }.declareSignal
    ⟨declarator.name, kind, width, signed, initialValue, declarator.line⟩

/-- Adds a parameter. A value that is not known is 0. -/
def addParameter (isLocal : Bool) (module : Module) (declarator : Source.Declarator) : Module :=
  let value := (declarator.initial.bind module.fold).getD 0
  { module with
    parameters := module.parameters ++ [⟨declarator.name, value, isLocal, declarator.line⟩] }

/-- Adds an item of the source text. -/
def addItem (module : Module) : Source.Item → Module
  | .ports direction isReg signed range names =>
    names.foldl (addPort direction isReg signed (module.widthOfRange range)) module
  | .signals kind signed range names =>
    names.foldl (addSignal kind signed (module.widthOfRange range)) module
  | .parameters isLocal names => names.foldl (addParameter isLocal) module
  | .assign target expression line =>
    { module with assigns := module.assigns ++ [⟨target, expression, line⟩] }
  | .always sensitivityList body line =>
    let placed := placeBody body module.statements
    { module with
      alwaysBlocks := module.alwaysBlocks ++ [⟨sensitivityList, placed.1, line⟩]
      statements := placed.2 }
  | .instanceOf declaration => { module with instances := module.instances ++ [declaration] }

/-- The module with a name and items. -/
def ofItems (name : String) (items : List Source.Item) : Module :=
  items.foldl addItem { name := name }

/-- The first module in a token list without comments. -/
def ofTokens? (tokens : List Token) : Option Module :=
  (Source.readModule? tokens).map fun (name, items) => ofItems name items

/-- The first module in a source text, if there is a module header. -/
def ofSource? (source : String) : Option Module :=
  ofTokens? ((Token.scan source).filter fun token => token.kind != .comment)

end Module

end MiniVerilog
