import MiniVerilog.Proofs.Module.Names
import MiniVerilog.Proofs.Statement.Walk

/-! # The statements of a module that was read

The statements of a module are a forest whose roots are the bodies of its always blocks, so what
goes through a body by numbers ends and comes to no statement twice
(`MiniVerilog.Module.ofSource?_forest`).
-/

namespace MiniVerilog

namespace Module

/-- The numbers in the bodies of the always blocks. -/
def roots (module : Module) : List Nat :=
  module.alwaysBlocks.flatMap AlwaysBlock.body

/-- **An item keeps the statements a forest**; only an always block adds statements and roots. -/
theorem addItem_forest {module : Module} (forest : module.statements.IsForest module.roots)
    (item : Source.Item) :
    (module.addItem item).statements.IsForest (module.addItem item).roots := by
  by_cases noBody : item.body? = none
  · obtain ⟨blocks, statements⟩ := sameBlocks_addItem noBody module
    rw [roots, blocks, statements]
    exact forest
  · cases item with
    | always sensitivityList body line =>
        have placed := placeBody_forest body forest
        rw [roots] at placed ⊢
        simp only [addItem, List.flatMap_append, List.flatMap_singleton]
        exact placed
    | _ => exact (noBody rfl).elim

/-- The statements of all items are a forest, by induction from the empty module. -/
theorem forest_ofItems (name : String) (items : List Source.Item) :
    (ofItems name items).statements.IsForest (ofItems name items).roots := by
  have all (items : List Source.Item) (module : Module)
      (forest : module.statements.IsForest module.roots) :
      (items.foldl addItem module).statements.IsForest (items.foldl addItem module).roots := by
    induction items generalizing module with
    | nil => exact forest
    | cons item items ih => exact ih _ (addItem_forest forest item)
  exact all items { name := name } .empty

/-- **The statements of a module that was read are a forest**: every number in a body names a
statement, is smaller than that of the statement the body belongs to, and stands nowhere else.
So every walk from the body of an always block ends and visits no statement twice; running the
body is such a walk, and so is collecting the names it assigns, which visits all statements of
the trees that its text is made of. -/
theorem ofSource?_forest {source : String} {module : Module}
    (parsed : ofSource? source = some module) :
    module.statements.IsForest module.roots ∧ ∀ block ∈ module.alwaysBlocks,
      (∀ {σ : Type} (walk : Walk σ) (state : σ), ∃ last visited,
        walk.Runs module.statements state block.body last visited ∧ visited.Nodup) ∧
      (∀ mask outer effects, ∃ visited, (Walk.execution mask outer).Runs module.statements effects
        block.body (StatementTree.runBody mask outer effects (module.trees block.body)) visited ∧
        visited.Nodup) ∧
      ∃ visited, Walk.collection.Runs module.statements [] block.body
          (module.assignedTargets block.body) visited ∧ visited.Nodup ∧
        (∀ index ∈ visited, index < module.statements.size) ∧
        StatementTree.nodesOfBody (module.trees block.body) =
          visited.map (StatementTree.ofIndex module.statements module.statements.size) := by
  obtain ⟨name, items, rfl, -⟩ := exists_items_of_ofSource? parsed
  have forest := forest_ofItems name items
  refine ⟨forest, fun block member => ?_⟩
  have sublist : block.body.Sublist (ofItems name items).roots := by
    rw [roots, List.flatMap_def]
    exact List.sublist_flatten_of_mem (List.mem_map_of_mem member)
  refine ⟨fun walk state => Walk.exists_runs forest sublist walk state, ?_, ?_⟩
  · intro mask outer effects
    obtain ⟨last, visited, runs, once⟩ :=
      Walk.exists_runs forest sublist (Walk.execution mask outer) effects
    obtain rfl := runs.execution_eq forest.isAcyclic
    exact ⟨visited, runs, once⟩
  · obtain ⟨last, visited, runs, once⟩ := Walk.exists_runs forest sublist Walk.collection []
    obtain rfl := runs.collection_eq forest.isAcyclic
    exact ⟨visited, runs, once, runs.lt_size, runs.nodes_eq forest fun _ _ => rfl⟩

/-- A loop in a block and a second default leave statements that no body has. -/
theorem ofSource?_forest_dropped :
    ∃ module, ofSource? "module m; always @(c) begin if (c) begin x = 1; y = 2; end while (c) z = 3;
      case (c) 0: x = 4; default: x = 5; default: begin x = 6; y = 7; end endcase end endmodule" =
        some module ∧ module.roots = [2, 8] ∧
      module.statements.children = [0, 1, 4, 6, 7] ∧ module.statements.size = 9 ∧
      module.statements.IsForest module.roots := by
  let statements : Pool Statement := ⟨#[.assign "x" "1" true 1, .assign "y" "2" true 1,
    .branch "c" [0, 1] [], .assign "z" "3" true 1, .assign "x" "4" true 2,
    .assign "x" "5" true 2, .assign "x" "6" true 2, .assign "y" "7" true 2,
    .select "c" [⟨["0"], [4]⟩] [6, 7]]⟩
  have parsed : ofSource? "module m; always @(c) begin if (c) begin x = 1; y = 2; end while (c) z = 3;
      case (c) 0: x = 4; default: x = 5; default: begin x = 6; y = 7; end endcase end endmodule" =
        some { name := "m", alwaysBlocks := [⟨["c"], [2, 8], 1⟩], statements := statements } := by
    decide +kernel
  exact ⟨_, parsed, rfl, rfl, rfl, (ofSource?_forest parsed).1⟩

end Module

end MiniVerilog
