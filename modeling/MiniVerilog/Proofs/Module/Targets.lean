import MiniVerilog.Proofs.Module.Names
import MiniVerilog.Proofs.Simulation.Block
import MiniVerilog.Proofs.Statement.Walk

/-! # The names that a body assigns

The names that a module lists for a body are those of the assignments the body reaches, in the
order in which they are first come to, and no run of the body writes another name
(`MiniVerilog.Module.listsTargets_of_isAcyclic`). The module need not be one that was read: numbers
may name no statement or stand in several bodies, as long as they make no cycle.
-/

namespace MiniVerilog

theorem Pool.target?_eq_some_iff {pool : Pool Statement} {index : Nat} {name : String} :
    pool.target? index = some name ↔
      ∃ statement, pool.get? index = some statement ∧ statement.target? = some name :=
  Option.bind_eq_some_iff

namespace Module

/-- The listed names of a body are exactly those that assignments below it assign, each once, as
collecting them by numbers gives them, and in the order of the statements that this visits. -/
structure ListsTargets (module : Module) (body : List Nat) : Prop where
  once : (module.assignedTargets body).Nodup
  assigned : ∀ name, name ∈ module.assignedTargets body ↔
    ∃ index, module.statements.Reaches body index ∧ ∃ statement,
      module.statements.get? index = some statement ∧ statement.target? = some name
  ordered : ∃ visited,
    Walk.collection.Passes module.statements [] body (module.assignedTargets body) visited ∧
      module.assignedTargets body = (visited.filterMap module.statements.target?).eraseDups

/-- Running a body by numbers comes to the same end as running its trees, adds only writes of
listed names and leaves the blocking writes of all other names as they were. -/
structure WritesListed (module : Module) (body : List Nat) (mask : String → Value → Value)
    (outer : String → Option Value) (before after : Effects) : Prop where
  executes : ∃ visited,
    (Walk.execution mask outer).Passes module.statements before body after visited
  writes : ∃ added, after.writes = before.writes ++ added ∧
    ∀ write ∈ added, write.1 ∈ module.assignedTargets body
  locals : ∀ name, name ∉ module.assignedTargets body →
    after.locals.get? name = before.locals.get? name

section Acyclic

variable {module : Module} (acyclic : module.statements.IsAcyclic) (body : List Nat)

include acyclic

/-- Collecting the names of a body by numbers ends, and comes to every statement that the body
reaches. -/
theorem exists_collection :
    ∃ visited, Walk.collection.Passes module.statements [] body (module.assignedTargets body)
        visited ∧
      module.assignedTargets body = (visited.filterMap module.statements.target?).eraseDups ∧
      ∀ index, index ∈ visited ↔
        index < module.statements.size ∧ module.statements.Reaches body index := by
  obtain ⟨last, visited, passes⟩ := Walk.exists_passes acyclic Walk.collection [] body
  obtain rfl : last = module.assignedTargets body := passes.collection_eq acyclic
  refine ⟨visited, passes, ?_, fun index => passes.mem_visited_iff fun _ _ => rfl⟩
  rw [assignedTargets_eq_eraseDups, ← passes.targets_eq acyclic fun _ _ => rfl]
  rfl

/-- Running a body by numbers ends where running its trees ends. -/
theorem exists_execution (mask : String → Value → Value) (outer : String → Option Value)
    (effects : Effects) :
    ∃ visited, (Walk.execution mask outer).Passes module.statements effects body
      (StatementTree.runBody mask outer effects (module.trees body)) visited := by
  obtain ⟨last, visited, passes⟩ :=
    Walk.exists_passes acyclic (Walk.execution mask outer) effects body
  obtain rfl := passes.execution_eq acyclic
  exact ⟨visited, passes⟩

end Acyclic

/-- **The names that a module lists for a body** are exactly those that the assignments it reaches
assign, each once and in the order of their first assignments, and whatever the values are, a run
of the body writes no other name. -/
theorem listsTargets_of_isAcyclic {module : Module} (acyclic : module.statements.IsAcyclic)
    (body : List Nat) :
    module.ListsTargets body ∧ ∀ mask outer effects,
      module.WritesListed body mask outer effects
        (StatementTree.runBody mask outer effects (module.trees body)) := by
  obtain ⟨visited, passes, distinct, visits⟩ := exists_collection acyclic body
  refine ⟨⟨?_, fun name => ?_, visited, passes, distinct⟩, fun mask outer effects => ?_⟩
  · rw [distinct]
    exact nodup_eraseDups _
  · rw [distinct, List.mem_eraseDups, List.mem_filterMap]
    constructor
    · rintro ⟨index, inside, assigned⟩
      exact ⟨index, ((visits index).mp inside).2, Pool.target?_eq_some_iff.mp assigned⟩
    · rintro ⟨index, reached, statement, present, target⟩
      exact ⟨index, (visits index).mpr ⟨Pool.lt_size_of_get? present, reached⟩,
        Pool.target?_eq_some_iff.mpr ⟨statement, present, target⟩⟩
  · obtain ⟨added, same, known⟩ :=
      StatementTree.exists_writes_runBody mask outer effects (module.trees body)
    constructor
    · exact exists_execution acyclic body mask outer effects
    · exact ⟨added, same, fun write member => mem_assignedTargets.mpr (known write member)⟩
    · intro name unlisted
      have unassigned := mt mem_assignedTargets.mpr unlisted
      exact StatementTree.runBody_keeps mask outer _ (Effects.keeps_local unassigned _) rfl

/-- A branch before the statements of its bodies, one of which it shares with a case statement, and
two numbers that name no statement. Of the names listed, the run for zeros writes only one. -/
theorem listsTargets_of_isAcyclic_shared :
    ∃ module : Module, module.statements.IsAcyclic ∧
      module.assignedTargets [0, 3, 7] = ["q", "a"] ∧ module.ListsTargets [0, 3, 7] ∧
      ∃ after : Effects, after.writes = [("a", 1), ("a", 1)] ∧
        module.WritesListed [0, 3, 7] (fun _ value => value) (fun _ => some 0) {} after := by
  let module : Module :=
    { name := "m"
      statements := ⟨#[.branch "c" [2, 9] [1], .select "s" [⟨["0"], [3]⟩, ⟨["1"], [2]⟩] [4],
        .assign "q" "0" true 1, .assign "a" "1" false 2, .assign "q" "a" false 3]⟩ }
  have ranked : module.statements.IsRank fun index => 3 - min index 2 := by
    refine ⟨by decide, ?_⟩
    rintro index child ⟨statement, present, member⟩
    have all : ∀ index < 5,
        ∀ child ∈ (module.statements.get? index).elim [] Statement.children,
          3 - min child 2 < 3 - min index 2 := by
      decide
    refine all index (Pool.lt_size_of_get? present) child ?_
    rw [present]
    exact member
  obtain ⟨lists, writes⟩ := listsTargets_of_isAcyclic ranked.isAcyclic [0, 3, 7]
  refine ⟨module, ranked.isAcyclic, ?_, lists, _, ?_, writes _ _ {}⟩
  · decide +kernel
  · decide +kernel

end Module

end MiniVerilog
