import MiniVerilog.Proofs.Source.ItemPlace

/-! # Modules without their lines

A module whose tokens have no places is the module without its lines
(`MiniVerilog.Module.ofTokens?_bare`), and so are the trees of its bodies
(`MiniVerilog.StatementTree.ofBody_bare`).
-/

namespace MiniVerilog

open Token (bare)

/-- A statement without its line. -/
def Statement.bare : Statement → Statement
  | assign target expression blocking _ => assign target expression blocking 0
  | branch condition thenBody elseBody => branch condition thenBody elseBody
  | select subject arms otherwise => select subject arms otherwise

/-- A pool of statements without their lines. -/
def Pool.bare (pool : Pool Statement) : Pool Statement :=
  ⟨pool.items.map Statement.bare⟩

@[simp] theorem Pool.size_bare (pool : Pool Statement) : pool.bare.size = pool.size :=
  Array.size_map ..

theorem Pool.get?_bare (pool : Pool Statement) (index : Nat) :
    pool.bare.get? index = (pool.get? index).map Statement.bare :=
  Array.getElem?_map ..

theorem Pool.alloc_bare (pool : Pool Statement) (statement : Statement) :
    pool.bare.alloc statement.bare = Prod.map id Pool.bare (pool.alloc statement) :=
  Prod.ext pool.size_bare (congrArg Pool.mk Array.map_push.symm)

mutual

/-- **Statements are stored under the same numbers** whatever their lines are. The three functions
recurse through one another on the structure of what was read. -/
theorem Source.Procedure.place_bare (procedure : Source.Procedure) (pool : Pool Statement) :
    procedure.bare.place pool.bare = Prod.map id Pool.bare (procedure.place pool) := by
  match procedure with
  | .assign target expression blocking line =>
      have placed := pool.alloc_bare (.assign target expression blocking line)
      simp only [Statement.bare] at placed
      simp only [Source.Procedure.bare, Source.Procedure.place, placed, Prod.map, id]
  | .branch condition thenBody elseBody =>
      have thenPart := placeBody_bare thenBody pool
      have elsePart := placeBody_bare elseBody (placeBody thenBody pool).2
      have placed := (placeBody elseBody (placeBody thenBody pool).2).2.alloc_bare
        (.branch condition (placeBody thenBody pool).1
          (placeBody elseBody (placeBody thenBody pool).2).1)
      simp only [Statement.bare] at placed
      simp only [Source.Procedure.bare, Source.Procedure.place, thenPart, Prod.map, elsePart, id,
        placed]
  | .select subject items =>
      have entries := placeItems_bare items [] pool
      have placed := (placeItems items [] pool).2.2.alloc_bare
        (.select subject (placeItems items [] pool).1 (placeItems items [] pool).2.1)
      simp only [Statement.bare] at placed
      simp only [Source.Procedure.bare, Source.Procedure.place, entries, Prod.map, id, placed]
  | .loop body =>
      simp only [Source.Procedure.bare, Source.Procedure.place, placeBody_bare body pool,
        Prod.map, id]

/-- The statements of a body are stored under the same numbers whatever their lines are. -/
theorem placeBody_bare (body : List Source.Procedure) (pool : Pool Statement) :
    placeBody (Source.bareBody body) pool.bare = Prod.map id Pool.bare (placeBody body pool) := by
  match body with
  | [] => rfl
  | procedure :: following =>
      simp only [Source.bareBody, placeBody, procedure.place_bare pool, Prod.map,
        placeBody_bare following, id]

/-- The entries of a case statement are stored under the same numbers whatever their lines are. -/
theorem placeItems_bare (items : List Source.CaseItem) (otherwise : List Nat)
    (pool : Pool Statement) :
    placeItems (Source.bareItems items) otherwise pool.bare =
      Prod.map id (Prod.map id Pool.bare) (placeItems items otherwise pool) := by
  match items with
  | [] => rfl
  | .arm labels body :: following =>
      simp only [Source.bareItems, placeItems, placeBody_bare body pool, Prod.map,
        placeItems_bare following, id]
  | .otherwise body :: following =>
      simp only [Source.bareItems, placeItems, placeBody_bare body pool, Prod.map,
        placeItems_bare following, id]

end

namespace StatementTree

mutual

/-- A tree without its lines. -/
def bare : StatementTree → StatementTree
  | missing => missing
  | assign target expression blocking _ => assign target expression blocking 0
  | branch condition thenBody elseBody => branch condition (bareAll thenBody) (bareAll elseBody)
  | select subject arms otherwise => select subject (bareArms arms) (bareAll otherwise)

/-- The trees of a body without their lines. -/
def bareAll : List StatementTree → List StatementTree
  | [] => []
  | tree :: body => tree.bare :: bareAll body

/-- The alternatives of a case statement without their lines. -/
def bareArms : List (List String × List StatementTree) → List (List String × List StatementTree)
  | [] => []
  | (labels, body) :: arms => (labels, bareAll body) :: bareArms arms

end

theorem bareAll_eq_map (body : List StatementTree) : bareAll body = body.map bare := by
  induction body with
  | nil => rfl
  | cons tree body ih => rw [bareAll, ih, List.map_cons]

/-- Alternatives lose the lines in each of their bodies. -/
theorem bareArms_eq_map (arms : List (List String × List StatementTree)) :
    bareArms arms = arms.map (Prod.map id (List.map bare)) := by
  induction arms with
  | nil => rfl
  | cons arm arms ih =>
      rw [bareArms, ih, bareAll_eq_map]
      rfl

/-- The tree below a number loses its lines with the statements. -/
theorem ofIndex_bare (pool : Pool Statement) (depth index : Nat) :
    ofIndex pool.bare depth index = (ofIndex pool depth index).bare := by
  induction depth generalizing index with
  | zero => rfl
  | succ depth ih =>
      have body (indices : List Nat) : indices.map (ofIndex pool.bare depth) =
          bareAll (indices.map (ofIndex pool depth)) := by
        rw [bareAll_eq_map, List.map_map]
        exact List.map_congr_left fun index _ => ih index
      rw [ofIndex, ofIndex, Pool.get?_bare]
      cases pool.get? index with
      | none => rfl
      | some statement =>
          cases statement with
          | assign => rfl
          | branch condition thenBody elseBody =>
              simp only [Option.map_some, Statement.bare, body, bare]
          | select subject arms otherwise =>
              simp only [Option.map_some, Statement.bare, body, bare, bareArms_eq_map,
                List.map_map, bareAll_eq_map, Function.comp_def, Prod.map, id]

/-- **Trees of a pool without lines have no lines.** -/
theorem ofBody_bare (pool : Pool Statement) (body : List Nat) :
    ofBody pool.bare body = (ofBody pool body).map bare := by
  rw [ofBody, ofBody, List.map_map, Pool.size_bare]
  exact List.map_congr_left fun index _ => ofIndex_bare pool pool.size index

end StatementTree

/-- An always block without its line. -/
def AlwaysBlock.bare (block : AlwaysBlock) : AlwaysBlock :=
  { block with line := 0 }

namespace Module

/-- A module without its lines. -/
def bare (module : Module) : Module where
  name := module.name
  ports := module.ports.map fun port => { port with line := 0 }
  signals := module.signals.map fun signal => { signal with line := 0 }
  parameters := module.parameters.map fun parameter => { parameter with line := 0 }
  alwaysBlocks := module.alwaysBlocks.map AlwaysBlock.bare
  assigns := module.assigns.map fun assign => { assign with line := 0 }
  instances := module.instances.map fun declaration => { declaration with line := 0 }
  statements := module.statements.bare

/-- Declaring an entry commutes with a change that keeps names. -/
theorem declare_map {α : Type} (nameOf : α → String) (change : α → α)
    (same : ∀ entry, nameOf (change entry) = nameOf entry) (entry : α) (entries : List α) :
    declare nameOf (change entry) (entries.map change) =
      (declare nameOf entry entries).map change := by
  induction entries with
  | nil => rfl
  | cons first rest ih =>
      simp only [List.map_cons, declare, same, ih]
      split <;> rfl

/-- A constant has the same value whatever the lines are. -/
theorem constant?_bare (module : Module) : module.bare.constant? = module.constant? := by
  funext name
  unfold constant?
  have reversed : module.bare.parameters.reverse =
      module.parameters.reverse.map fun parameter => { parameter with line := 0 } :=
    List.map_reverse.symm
  rw [reversed, List.find?_map, Option.map_map]
  rfl

theorem fold_bare (module : Module) (words : List String) :
    module.bare.fold words = module.fold words := by
  rw [fold, fold, constant?_bare]

/-- A range has the same width whatever the lines are. -/
theorem widthOfRange_bare (module : Module) (range : Option Source.Range) :
    module.bare.widthOfRange range = module.widthOfRange range := by
  cases range with
  | none => rfl
  | some range => simp only [widthOfRange, fold_bare]

/-- Declaring a port commutes with leaving out lines. The same is stated below for all that an item
adds. -/
theorem declarePort_bare (module : Module) (port : Port) :
    module.bare.declarePort { port with line := 0 } = (module.declarePort port).bare := by
  have declared := declare_map Port.name (fun port => { port with line := 0 }) (fun _ => rfl)
    port module.ports
  simp only [declarePort, bare, declared]

theorem declareSignal_bare (module : Module) (signal : Signal) :
    module.bare.declareSignal { signal with line := 0 } = (module.declareSignal signal).bare := by
  have declared := declare_map Signal.name (fun signal => { signal with line := 0 })
    (fun _ => rfl) signal module.signals
  simp only [declareSignal, bare, declared]

/-- Adding a port, and a variable for it, commutes with leaving out lines. -/
theorem addPort_bare (direction : Direction) (isReg signed : Bool) (width : Nat)
    (module : Module) (declarator : Source.Declarator) :
    addPort direction isReg signed width module.bare declarator.bare =
      (addPort direction isReg signed width module declarator).bare := by
  have port := module.declarePort_bare
    ⟨declarator.name, direction, width, signed, declarator.line⟩
  simp only at port
  simp only [addPort, Source.Declarator.bare, port]
  split
  · exact declareSignal_bare _ ⟨declarator.name, .reg, width, signed, none, declarator.line⟩
  · rfl

/-- Adding a signal with its initial value commutes with leaving out lines. -/
theorem addSignal_bare (kind : SignalKind) (signed : Bool) (width : Nat)
    (module : Module) (declarator : Source.Declarator) :
    addSignal kind signed width module.bare declarator.bare =
      (addSignal kind signed width module declarator).bare := by
  have fold : module.bare.fold = module.fold := funext module.fold_bare
  obtain ⟨name, line, initial⟩ := declarator
  unfold addSignal
  rw [fold, ← declareSignal_bare]
  cases kind with
  | reg => simp only [Source.Declarator.bare, bare, List.append_nil]
  | wire =>
      cases initial <;>
        simp only [Source.Declarator.bare, bare, List.append_nil, List.map_append, List.map_cons,
          List.map_nil]

/-- Adding a parameter with its value commutes with leaving out lines. -/
theorem addParameter_bare (isLocal : Bool) (module : Module) (declarator : Source.Declarator) :
    addParameter isLocal module.bare declarator.bare =
      (addParameter isLocal module declarator).bare := by
  have fold : module.bare.fold = module.fold := funext module.fold_bare
  simp only [addParameter, fold]
  simp only [Source.Declarator.bare, bare, List.map_append, List.map_cons, List.map_nil]

/-- What commutes with leaving out lines for each entry does so for all entries. -/
theorem foldl_bare {α : Type} {add : Module → α → Module} {change : α → α}
    (same : ∀ module entry, add (bare module) (change entry) = (add module entry).bare)
    (entries : List α) (module : Module) :
    (entries.map change).foldl add module.bare = (entries.foldl add module).bare := by
  induction entries generalizing module with
  | nil => rfl
  | cons entry entries ih => rw [List.map_cons, List.foldl_cons, same, ih, List.foldl_cons]

/-- **Adding an item to a module commutes with leaving out lines.** -/
theorem addItem_bare (module : Module) (item : Source.Item) :
    addItem module.bare item.bare = (addItem module item).bare := by
  cases item with
  | ports direction isReg signed range names =>
      simp only [Source.Item.bare, addItem, widthOfRange_bare]
      exact foldl_bare (addPort_bare direction isReg signed _) names module
  | signals kind signed range names =>
      simp only [Source.Item.bare, addItem, widthOfRange_bare]
      exact foldl_bare (addSignal_bare kind signed _) names module
  | parameters isLocal names => exact foldl_bare (addParameter_bare isLocal) names module
  | assign target expression line =>
      simp only [Source.Item.bare, addItem, bare, List.map_append, List.map_cons, List.map_nil]
  | always sensitivityList body line =>
      have placed := placeBody_bare body module.statements
      simp only [Source.Item.bare, addItem, bare, placed, List.map_append, List.map_cons,
        List.map_nil, Prod.map, id, AlwaysBlock.bare]
  | instanceOf declaration =>
      simp only [Source.Item.bare, addItem, bare, List.map_append, List.map_cons, List.map_nil]

/-- **A module is read without looking at places.** -/
theorem ofTokens?_bare (tokens : List Token) :
    ofTokens? (tokens.map Token.bare) = (ofTokens? tokens).map bare := by
  simp only [ofTokens?, Source.readModule?_bare, Option.map_map]
  congr 1
  funext ⟨name, items⟩
  have start : bare { name := name } = { name := name } := by
    simp only [bare, Pool.bare, Pool.empty, List.map_nil, Array.map_empty]
  have added := foldl_bare addItem_bare items { name := name }
  rw [start] at added
  exact added

end Module

end MiniVerilog
