import MiniVerilog.Proofs.Statement.Placement

/-! # The bodies of a module

The always blocks of a module are those of its source text in order, and the trees of
their bodies are the statements that were read (`MiniVerilog.Module.trees_ofItems`).
-/

namespace MiniVerilog

/-- The body of an always block. -/
def Source.Item.body? : Source.Item → Option (List Source.Procedure)
  | .always _ body _ => some body
  | _ => none

namespace Module

/-- In the pool of the module and in every later one the blocks stand for the bodies. -/
def BlocksRepresent (module : Module) (bodies : List (List StatementTree)) : Prop :=
  ∀ later, module.statements.Extends later → ∀ depth, module.statements.size ≤ depth →
    (module.alwaysBlocks.map fun block => block.body.map (StatementTree.ofIndex later depth)) =
      bodies

/-- The two modules have the same always blocks over the same pool. -/
def SameBlocks (first second : Module) : Prop :=
  first.alwaysBlocks = second.alwaysBlocks ∧ first.statements = second.statements

/-- What keeps the blocks for each entry keeps them for all. -/
theorem sameBlocks_foldl {α : Type} {add : Module → α → Module}
    (same : ∀ module entry, SameBlocks (add module entry) module) (entries : List α)
    (module : Module) : SameBlocks (entries.foldl add module) module := by
  induction entries generalizing module with
  | nil => exact ⟨rfl, rfl⟩
  | cons entry entries ih =>
      obtain ⟨blocks, statements⟩ := ih (add module entry)
      exact ⟨blocks.trans (same module entry).1, statements.trans (same module entry).2⟩

/-- Only always blocks add to the blocks and to the pool. -/
theorem sameBlocks_addItem {item : Source.Item} (noBody : item.body? = none) (module : Module) :
    SameBlocks (addItem module item) module := by
  cases item with
  | ports direction isReg signed range names =>
      refine sameBlocks_foldl (fun module declarator => ?_) names module
      unfold addPort
      simp only
      split <;> exact ⟨rfl, rfl⟩
  | signals kind signed range names =>
      refine sameBlocks_foldl (fun module declarator => ?_) names module
      exact ⟨rfl, rfl⟩
  | parameters isLocal names =>
      refine sameBlocks_foldl (fun module declarator => ?_) names module
      exact ⟨rfl, rfl⟩
  | assign | instanceOf => exact ⟨rfl, rfl⟩
  | always => cases noBody

/-- **An item adds the body of its block at most**, and the bodies before stand for their trees as
they did. -/
theorem BlocksRepresent.addItem {module : Module} {bodies : List (List StatementTree)}
    (represent : module.BlocksRepresent bodies) (item : Source.Item) :
    (module.addItem item).BlocksRepresent
      (bodies ++ (item.body?.map Source.treesOfBody).toList) := by
  by_cases noBody : item.body? = none
  · obtain ⟨blocks, statements⟩ := sameBlocks_addItem noBody module
    unfold BlocksRepresent
    rw [blocks, statements, noBody, Option.map_none, Option.toList_none, List.append_nil]
    exact represent
  · cases item with
    | always sensitivityList body line =>
        obtain ⟨grows, trees⟩ := placeBody_represents body module.statements
        intro later beyond depth deep
        have before := represent later (grows.trans beyond) depth (Nat.le_trans grows.size_le deep)
        have new := trees later beyond depth deep
        simp only [Module.addItem, List.map_append, List.map_cons, List.map_nil, before, new]
        rfl
    | _ => exact (noBody rfl).elim

/-- **The blocks of a module stand for the bodies that were read.** -/
theorem trees_ofItems (name : String) (items : List Source.Item) :
    ((ofItems name items).alwaysBlocks.map fun block => (ofItems name items).trees block.body) =
      (items.filterMap Source.Item.body?).map Source.treesOfBody := by
  have all (items : List Source.Item) : ∀ (module : Module) (bodies : List (List StatementTree)),
      module.BlocksRepresent bodies → (items.foldl addItem module).BlocksRepresent
        (bodies ++ (items.filterMap Source.Item.body?).map Source.treesOfBody) := by
    induction items with
    | nil =>
        intro module bodies represent
        rw [List.filterMap_nil, List.map_nil, List.append_nil]
        exact represent
    | cons item items ih =>
        intro module bodies represent
        have read := ih _ _ (represent.addItem item)
        rw [List.append_assoc] at read
        cases body : item.body? with
        | none =>
            rw [body] at read
            rw [List.filterMap_cons_none body]
            exact read
        | some first =>
            rw [body] at read
            rw [List.filterMap_cons_some body]
            exact read
  exact all items { name := name } [] (fun _ _ _ _ => rfl) _ (Pool.Extends.refl _) _ (Nat.le_refl _)

end Module

end MiniVerilog
