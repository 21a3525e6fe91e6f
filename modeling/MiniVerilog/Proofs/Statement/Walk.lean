import MiniVerilog.Module.Basic
import MiniVerilog.Proofs.Source.Names
import MiniVerilog.Proofs.Statement.Acyclic
import MiniVerilog.Simulation.Block

/-! # Walks through statements

A walk goes through statements by their numbers: it does something with a statement and goes
on with some of the numbers in its bodies. In a forest every walk ends and comes to no statement
twice (`MiniVerilog.Walk.exists_runs`). Without cycles it still ends when it passes over numbers
that name no statement (`MiniVerilog.Walk.exists_passes`). Running a body and collecting the names
it assigns are walks, and they end in what is defined on trees
(`MiniVerilog.Walk.Ends.execution_eq`, `MiniVerilog.Walk.Ends.collection_eq`).
-/

namespace MiniVerilog

/-- A way to go through statements with a state: what is done with a statement, and which of
the numbers in its bodies come next. -/
structure Walk (σ : Type) where
  visit : σ → Statement → σ
  enter : σ → Statement → List Nat
  enter_sublist : ∀ state statement, (enter state statement).Sublist statement.children

namespace Walk

variable {σ : Type}

/-- From a state and the numbers to come, the walk ends in a state after it has visited
numbers in their order. Where it is `lenient`, it leaves out the numbers that name no statement. -/
inductive Ends (walk : Walk σ) (pool : Pool Statement) (lenient : Prop) :
    σ → List Nat → σ → List Nat → Prop
  | done (state : σ) : Ends walk pool lenient state [] state []
  | skip {state last : σ} {index : Nat} {pending visited : List Nat} (allowed : lenient)
      (absent : pool.get? index = none)
      (rest : Ends walk pool lenient state pending last visited) :
      Ends walk pool lenient state (index :: pending) last visited
  | visit {state last : σ} {index : Nat} {statement : Statement} {pending visited : List Nat}
      (present : pool.get? index = some statement)
      (rest : Ends walk pool lenient (walk.visit state statement)
        (walk.enter state statement ++ pending) last visited) :
      Ends walk pool lenient state (index :: pending) last (index :: visited)

/-- The walk ends, and every number that it comes to names a statement. -/
abbrev Runs (walk : Walk σ) (pool : Pool Statement) : σ → List Nat → σ → List Nat → Prop :=
  walk.Ends pool False

/-- The walk ends when some numbers may name no statement. -/
abbrev Passes (walk : Walk σ) (pool : Pool Statement) : σ → List Nat → σ → List Nat → Prop :=
  walk.Ends pool True

/-- The numbers that were visited and those to come differ from one another, and each of them
is a root or stands in a body of a statement that was visited. -/
structure Reaches (pool : Pool Statement) (roots visited pending : List Nat) : Prop where
  known : ∀ index ∈ visited ++ pending, index ∈ roots ∨ ∃ parent ∈ visited, ∃ statement,
    pool.get? parent = some statement ∧ index ∈ statement.children
  once : (visited ++ pending).Nodup

section Reaches

variable {pool : Pool Statement} {roots visited pending : List Nat}

theorem Reaches.start (forest : pool.IsForest roots) {first : List Nat}
    (sublist : first.Sublist roots) : Reaches pool roots [] first where
  known := fun _ member => .inl (sublist.subset member)
  once := (List.nodup_append.mp forest.once).1.sublist sublist

/-- What a walk reaches in a forest names a statement. -/
theorem Reaches.inside (forest : pool.IsForest roots)
    (reaches : Reaches pool roots visited pending) :
    ∀ index ∈ visited ++ pending, index < pool.size := by
  intro index member
  rcases reaches.known index member with root | ⟨parent, -, statement, present, child⟩
  · exact forest.inside index (List.mem_append_left _ root)
  · exact forest.inside index (List.mem_append_right _ (Pool.mem_children present child))

/-- A walk reaches no more numbers than there are statements. -/
theorem Reaches.length_le (forest : pool.IsForest roots)
    (reaches : Reaches pool roots visited pending) :
    (visited ++ pending).length ≤ pool.size := by
  have inside : visited ++ pending ⊆ List.range pool.size :=
    fun index member => List.mem_range.mpr (reaches.inside forest index member)
  have length := (reaches.once.subperm inside).length_le
  rwa [List.length_range] at length

/-- **One step of a walk reaches only new numbers**: a number in a body has no other place in
the forest. -/
theorem Reaches.step (forest : pool.IsForest roots) {index : Nat} {statement : Statement}
    (reaches : Reaches pool roots visited (index :: pending))
    (present : pool.get? index = some statement) {entered : List Nat}
    (sublist : entered.Sublist statement.children) :
    Reaches pool roots (visited ++ [index]) (entered ++ pending) := by
  have split : visited ++ index :: pending = visited ++ [index] ++ pending :=
    List.append_cons visited index pending
  have fresh : index ∉ visited := by
    have apart := (List.nodup_append.mp reaches.once).2.2
    exact fun old => apart index old index List.mem_cons_self rfl
  -- A child that was known would be a root, or in the body of a second parent.
  have new : ∀ child ∈ entered, child ∉ visited ++ [index] ++ pending := by
    intro child member old
    have inBody := sublist.subset member
    rw [← split] at old
    rcases reaches.known child old with root | ⟨parent, before, other, otherPresent, otherBody⟩
    · exact forest.not_mem_roots present inBody root
    · exact fresh (forest.parent_unique present otherPresent inBody otherBody ▸ before)
  have shape : (visited ++ [index] ++ (entered ++ pending)).Perm
      (entered ++ (visited ++ [index] ++ pending)) := by
    rw [← List.append_assoc, ← List.append_assoc entered]
    exact List.perm_append_comm.append_right pending
  constructor
  · intro child member
    rcases List.mem_append.mp (shape.mem_iff.mp member) with inBody | old
    · exact .inr ⟨index, List.mem_append_right _ List.mem_cons_self, statement, present,
        sublist.subset inBody⟩
    · rw [← split] at old
      refine (reaches.known child old).imp_right ?_
      rintro ⟨parent, before, others⟩
      exact ⟨parent, List.mem_append_left _ before, others⟩
  · refine shape.nodup_iff.mpr (List.nodup_append.mpr ⟨?_, split ▸ reaches.once, ?_⟩)
    · exact (forest.nodup_children present).sublist sublist
    · rintro child member other old rfl
      exact new child member old

/-- What a walk reaches it visits, and then it ends. -/
theorem Reaches.exists_runs (forest : pool.IsForest roots) (walk : Walk σ) (state : σ)
    (reaches : Reaches pool roots visited pending) :
    ∃ last seen, walk.Runs pool state pending last seen ∧ (visited ++ seen).Nodup := by
  induction left : pool.size - visited.length using Nat.strongRecOn
    generalizing state visited pending with
  | _ bound ih =>
      cases pending with
      | nil => exact ⟨state, [], .done state, reaches.once⟩
      | cons index pending =>
          have fits := reaches.length_le forest
          rw [List.length_append, List.length_cons] at fits
          obtain ⟨statement, present⟩ := Pool.exists_of_lt_size (reaches.inside forest index
            (List.mem_append_right _ List.mem_cons_self))
          have next := reaches.step forest present (walk.enter_sublist state statement)
          have fewer : pool.size - (visited ++ [index]).length < bound := by
            rw [List.length_append, List.length_singleton]
            omega
          obtain ⟨last, seen, runs, once⟩ :=
            ih _ fewer (walk.visit state statement) next rfl
          refine ⟨last, index :: seen, .visit present runs, ?_⟩
          rw [List.append_cons]
          exact once

end Reaches

/-- **Every walk from roots of a forest ends and visits no statement twice.** -/
theorem exists_runs {pool : Pool Statement} {roots first : List Nat} (forest : pool.IsForest roots)
    (sublist : first.Sublist roots) (walk : Walk σ) (state : σ) :
    ∃ last visited, walk.Runs pool state first last visited ∧ visited.Nodup :=
  (Reaches.start forest sublist).exists_runs forest walk state

section Acyclic

variable {pool : Pool Statement} {lenient : Prop} {walk : Walk σ} {pending visited : List Nat}

/-- A walk that ends goes on with more numbers where it ended. -/
theorem Ends.append {state middle last : σ} {others visitedLater : List Nat}
    (ends : walk.Ends pool lenient state pending middle visited)
    (later : walk.Ends pool lenient middle others last visitedLater) :
    walk.Ends pool lenient state (pending ++ others) last (visited ++ visitedLater) := by
  induction ends with
  | done => exact later
  | skip allowed absent rest ih => exact .skip allowed absent (ih later)
  | visit present rest ih =>
      rw [List.cons_append, List.cons_append]
      refine .visit present ?_
      rw [← List.append_assoc]
      exact ih later

/-- A walk ends from numbers that reach less than `bound` statements each. The induction is on the
bound, as a number in a body reaches fewer statements than the statement the body belongs to. -/
theorem exists_passes_of_card_lt (acyclic : pool.IsAcyclic) (walk : Walk σ) (bound : Nat)
    (state : σ) (pending : List Nat)
    (below : ∀ index ∈ pending, (pool.reachable index).card < bound) :
    ∃ last visited, walk.Passes pool state pending last visited := by
  induction bound generalizing state pending with
  | zero =>
      cases pending with
      | nil => exact ⟨state, [], .done state⟩
      | cons index pending => exact (Nat.not_lt_zero _ (below index List.mem_cons_self)).elim
  | succ bound deeper =>
      induction pending generalizing state with
      | nil => exact ⟨state, [], .done state⟩
      | cons index pending ih =>
          obtain ⟨here, others⟩ := List.forall_mem_cons.mp below
          cases present : pool.get? index with
          | none =>
              obtain ⟨last, visited, passes⟩ := ih state others
              exact ⟨last, visited, .skip trivial present passes⟩
          | some statement =>
              have lower : ∀ child ∈ walk.enter state statement,
                  (pool.reachable child).card < bound := by
                intro child member
                have inBody := (walk.enter_sublist state statement).subset member
                have falls := acyclic.isRank.falls index child ⟨statement, present, inBody⟩
                omega
              obtain ⟨middle, first, entered⟩ := deeper (walk.visit state statement) _ lower
              obtain ⟨last, later, passes⟩ := ih middle others
              exact ⟨last, index :: (first ++ later), .visit present (entered.append passes)⟩

/-- **Every walk without cycles ends.** -/
theorem exists_passes (acyclic : pool.IsAcyclic) (walk : Walk σ) (state : σ) (pending : List Nat) :
    ∃ last visited, walk.Passes pool state pending last visited :=
  exists_passes_of_card_lt acyclic walk (pool.size + 1) state pending
    fun index _ => Nat.lt_succ_of_le (pool.card_reachable_le index)

/-- **A walk that goes on with all bodies** visits exactly the statements it can reach. -/
theorem Ends.mem_visited_iff
    (whole : ∀ state statement, walk.enter state statement = statement.children) {state last : σ}
    (ends : walk.Ends pool lenient state pending last visited) {index : Nat} :
    index ∈ visited ↔ index < pool.size ∧ pool.Reaches pending index := by
  induction ends with
  | done => exact iff_of_false List.not_mem_nil fun reached => Pool.not_reaches_nil reached.2
  | @skip state last absentIndex pending visited allowed absent rest ih =>
      rw [ih, Pool.reaches_cons]
      refine and_congr_right fun inside => (or_iff_right fun path => ?_).symm
      obtain ⟨statement, present⟩ := Pool.exists_of_lt_size inside
      rw [Pool.eq_of_absent absent path, absent] at present
      cases present
  | @visit state last first statement pending visited present rest ih =>
      rw [List.mem_cons, ih, whole, Pool.reaches_append, Pool.reaches_cons,
        Pool.reflTransGen_iff_of_get? present, or_assoc]
      constructor
      · rintro (rfl | ⟨inside, reached⟩)
        · exact ⟨Pool.lt_size_of_get? present, .inl rfl⟩
        · exact ⟨inside, .inr reached⟩
      · rintro ⟨inside, same | reached⟩
        · exact .inl same
        · exact .inr ⟨inside, reached⟩

end Acyclic

/-- Running a body, which goes on with the bodies that are taken. -/
def execution (mask : String → Value → Value) (outer : String → Option Value) : Walk Effects where
  visit effects
    | .assign target expression blocking _ =>
      effects.write blocking target
        (mask target (Expression.evaluate (effects.lookup outer) expression))
    | _ => effects
  enter effects
    | .assign .. => []
    | .branch condition thenBody elseBody =>
      if Expression.evaluate (effects.lookup outer) condition ≠ 0 then thenBody else elseBody
    | .select subject arms otherwise =>
      ((arms.find? fun arm => StatementTree.armMatches (effects.lookup outer)
        (Expression.evaluate (effects.lookup outer) subject) arm.labels).map
          CaseArm.body).getD otherwise
  enter_sublist effects statement := by
    cases statement with
    | assign => exact List.Sublist.refl []
    | branch condition thenBody elseBody =>
        dsimp only
        split
        · exact List.sublist_append_left thenBody elseBody
        · exact List.sublist_append_right thenBody elseBody
    | select subject arms otherwise =>
        dsimp only [Statement.children]
        cases found : arms.find? _ with
        | none => exact List.sublist_append_right _ otherwise
        | some arm =>
            have body : arm.body.Sublist (arms.flatMap CaseArm.body) := by
              rw [List.flatMap_def]
              exact List.sublist_flatten_of_mem
                (List.mem_map_of_mem (List.mem_of_find?_eq_some found))
            exact body.trans (List.sublist_append_left _ otherwise)

/-- Collecting the names that are assigned, each once. -/
def collection : Walk (List String) where
  visit names statement :=
    match statement.target? with
    | some name => if name ∈ names then names else names ++ [name]
    | none => names
  enter _ statement := statement.children
  enter_sublist _ _ := List.Sublist.refl _

end Walk

namespace StatementTree

mutual

/-- A tree with all trees below it, in reading order. -/
def nodes : StatementTree → List StatementTree
  | missing => [missing]
  | assign target expression blocking line => [assign target expression blocking line]
  | branch condition thenBody elseBody =>
    branch condition thenBody elseBody :: (nodesOfBody thenBody ++ nodesOfBody elseBody)
  | select subject arms otherwise =>
    select subject arms otherwise :: (nodesOfArms arms ++ nodesOfBody otherwise)

/-- The trees of a body with all trees below them. -/
def nodesOfBody : List StatementTree → List StatementTree
  | [] => []
  | tree :: body => nodes tree ++ nodesOfBody body

/-- The trees in the alternatives of a case statement with all trees below them. -/
def nodesOfArms : List (List String × List StatementTree) → List StatementTree
  | [] => []
  | (_, body) :: arms => nodesOfBody body ++ nodesOfArms arms

end

/-- The trees of a body are those of its parts, in order. -/
theorem nodesOfBody_append (first others : List StatementTree) :
    nodesOfBody (first ++ others) = nodesOfBody first ++ nodesOfBody others := by
  induction first with
  | nil => rfl
  | cons tree first ih =>
      rw [List.cons_append, nodesOfBody, ih, nodesOfBody, List.append_assoc]

/-- The kind of an assignment. -/
def blocking? : StatementTree → Option Bool
  | assign _ _ blocking _ => some blocking
  | _ => none

/-- No assignment among the trees is of the other kind. -/
def OnlyAssigns (blocking : Bool) (trees : List StatementTree) : Prop :=
  ∀ tree ∈ trees, tree.blocking? ≠ some (!blocking)

theorem onlyAssigns_append {blocking : Bool} {first others : List StatementTree} :
    OnlyAssigns blocking (first ++ others) ↔
      OnlyAssigns blocking first ∧ OnlyAssigns blocking others :=
  List.forall_mem_append

theorem onlyAssigns_cons {blocking : Bool} {tree : StatementTree} {others : List StatementTree} :
    OnlyAssigns blocking (tree :: others) ↔
      tree.blocking? ≠ some (!blocking) ∧ OnlyAssigns blocking others :=
  List.forall_mem_cons

theorem OnlyAssigns.blocking_eq {blocking kind : Bool} {target expression : String} {line : Nat}
    (only : OnlyAssigns blocking (nodes (assign target expression kind line))) :
    kind = blocking :=
  Bool.not_eq_not.mp fun other => (onlyAssigns_cons.mp only).1 (congrArg some other)

/-- What holds of all alternatives holds of each. -/
theorem OnlyAssigns.of_mem {blocking : Bool} {arms : List (List String × List StatementTree)}
    (only : OnlyAssigns blocking (nodesOfArms arms)) {arm : List String × List StatementTree}
    (member : arm ∈ arms) : OnlyAssigns blocking (nodesOfBody arm.2) := by
  induction arms with
  | nil => cases member
  | cons other arms ih =>
      obtain ⟨here, later⟩ := onlyAssigns_append.mp only
      rcases List.mem_cons.mp member with rfl | others
      · exact here
      · exact ih later others

/-- The alternatives of a case statement are tried in order. -/
theorem runArms_eq_find? (mask : String → Value → Value) (outer : String → Option Value)
    (effects : Effects) (subject : Value) (arms : List (List String × List StatementTree)) :
    runArms mask outer effects subject arms =
      (arms.find? fun arm => armMatches (effects.lookup outer) subject arm.1).map
        fun arm => runBody mask outer effects arm.2 := by
  induction arms with
  | nil => rfl
  | cons arm arms ih =>
      rw [runArms, ih, List.find?_cons]
      cases armMatches (effects.lookup outer) subject arm.1 <;> rfl

section TreeOver

variable (tree : Nat → StatementTree)

/-- The trees in alternatives are those of their bodies, in order. -/
theorem nodesOfArms_map (arms : List CaseArm) :
    nodesOfArms (arms.map fun arm => (arm.labels, arm.body.map tree)) =
      nodesOfBody ((arms.flatMap CaseArm.body).map tree) := by
  induction arms with
  | nil => rfl
  | cons arm arms ih =>
      rw [List.map_cons, nodesOfArms, ih, List.flatMap_cons, List.map_append, nodesOfBody_append]

/-- Below the tree of a statement are the trees of its children. -/
theorem nodes_treeOver (statement : Statement) :
    nodes (statement.treeOver tree) =
      statement.treeOver tree :: nodesOfBody (statement.children.map tree) := by
  cases statement with
  | assign => rfl
  | branch condition thenBody elseBody =>
      rw [Statement.children, List.map_append, nodesOfBody_append]
      rfl
  | select subject arms otherwise =>
      rw [Statement.children, List.map_append, nodesOfBody_append, ← nodesOfArms_map]
      rfl

/-- The targets of alternatives are those of their bodies, in order. -/
theorem targetsOfArms_map (arms : List CaseArm) :
    targetsOfArms (arms.map fun arm => (arm.labels, arm.body.map tree)) =
      targetsOfBody ((arms.flatMap CaseArm.body).map tree) := by
  induction arms with
  | nil => rfl
  | cons arm arms ih =>
      rw [List.map_cons, targetsOfArms, ih, List.flatMap_cons, List.map_append,
        Source.targetsOfBody_append]

/-- A statement assigns its own target and what its children assign. -/
theorem targets_treeOver (statement : Statement) :
    targets (statement.treeOver tree) =
      statement.target?.toList ++ targetsOfBody (statement.children.map tree) := by
  cases statement with
  | assign => rfl
  | branch condition thenBody elseBody =>
      rw [Statement.children, List.map_append, Source.targetsOfBody_append]
      rfl
  | select subject arms otherwise =>
      rw [Statement.children, List.map_append, Source.targetsOfBody_append, ← targetsOfArms_map]
      rfl

variable (mask : String → Value → Value) (outer : String → Option Value)

/-- Running a body is running its parts one after the other. -/
theorem runBody_append (effects : Effects) (first others : List StatementTree) :
    runBody mask outer effects (first ++ others) =
      runBody mask outer (runBody mask outer effects first) others := by
  induction first generalizing effects with
  | nil => rw [List.nil_append, runBody]
  | cons statement first ih => rw [List.cons_append, runBody, ih, runBody]

/-- Of alternatives by numbers the first one that is taken runs. -/
theorem runArms_map (effects : Effects) (subject : Value) (arms : List CaseArm) :
    runArms mask outer effects subject (arms.map fun arm => (arm.labels, arm.body.map tree)) =
      (arms.find? fun arm => armMatches (effects.lookup outer) subject arm.labels).map
        fun arm => runBody mask outer effects (arm.body.map tree) := by
  rw [runArms_eq_find?, List.find?_map, Option.map_map]
  rfl

/-- Running a statement is one step of the walk and running the bodies it goes on with. -/
theorem run_treeOver (effects : Effects) (statement : Statement) :
    run mask outer effects (statement.treeOver tree) =
      runBody mask outer ((Walk.execution mask outer).visit effects statement)
        (((Walk.execution mask outer).enter effects statement).map tree) := by
  cases statement with
  | assign target expression blocking line =>
      rw [Statement.treeOver, run]
      rfl
  | branch condition thenBody elseBody =>
      rw [Statement.treeOver, run]
      dsimp only [Walk.execution]
      split <;> rfl
  | select subject arms otherwise =>
      rw [Statement.treeOver, run, runArms_map]
      dsimp only [Walk.execution]
      cases arms.find? _ <;> rfl

end TreeOver

end StatementTree

namespace Walk

variable {σ : Type} {pool : Pool Statement} {lenient : Prop} {roots pending visited : List Nat}

/-- **Executing statements by their numbers is running their trees.** -/
theorem Ends.execution_eq (acyclic : pool.IsAcyclic) {mask : String → Value → Value}
    {outer : String → Option Value} {effects last : Effects}
    (ends : (execution mask outer).Ends pool lenient effects pending last visited) :
    last = StatementTree.runBody mask outer effects
      (pending.map (StatementTree.ofIndex pool pool.size)) := by
  induction ends with
  | done effects => rfl
  | skip allowed absent rest ih =>
      rw [ih, List.map_cons, StatementTree.ofIndex_of_absent absent, StatementTree.runBody,
        StatementTree.run]
  | visit present rest ih =>
      rw [ih, List.map_append, StatementTree.runBody_append, ← StatementTree.run_treeOver,
        ← acyclic.ofIndex_of_get? present, List.map_cons, StatementTree.runBody]

/-- **Collecting names by numbers** gives the names that the trees assign. -/
theorem Ends.collection_eq (acyclic : pool.IsAcyclic) {names last : List String}
    (ends : collection.Ends pool lenient names pending last visited) :
    last = (StatementTree.targetsOfBody
        (pending.map (StatementTree.ofIndex pool pool.size))).foldl
      (fun names name => if name ∈ names then names else names ++ [name]) names := by
  induction ends with
  | done names => rfl
  | skip allowed absent rest ih =>
      rw [ih, List.map_cons, StatementTree.ofIndex_of_absent absent, StatementTree.targetsOfBody,
        StatementTree.targets, List.nil_append]
  | @visit names last index statement pending visited present rest ih =>
      rw [ih, List.map_append, Source.targetsOfBody_append, List.foldl_append, List.map_cons,
        StatementTree.targetsOfBody, List.foldl_append, acyclic.ofIndex_of_get? present,
        StatementTree.targets_treeOver, List.foldl_append]
      dsimp only [collection]
      cases statement.target? <;> rfl

/-- **A walk that goes on with all bodies** comes to the names that the trees assign, in order. -/
theorem Ends.targets_eq (acyclic : pool.IsAcyclic) {walk : Walk σ}
    (whole : ∀ state statement, walk.enter state statement = statement.children) {state last : σ}
    (ends : walk.Ends pool lenient state pending last visited) :
    StatementTree.targetsOfBody (pending.map (StatementTree.ofIndex pool pool.size)) =
      visited.filterMap pool.target? := by
  induction ends with
  | done => rfl
  | skip allowed absent rest ih =>
      rw [List.map_cons, StatementTree.ofIndex_of_absent absent, StatementTree.targetsOfBody,
        StatementTree.targets, List.nil_append, ih]
  | @visit state last index statement pending visited present rest ih =>
      rw [whole, List.map_append, Source.targetsOfBody_append] at ih
      have target : pool.target? index = statement.target? := by
        rw [Pool.target?, present, Option.bind_some]
      rw [List.map_cons, StatementTree.targetsOfBody, acyclic.ofIndex_of_get? present,
        StatementTree.targets_treeOver, List.append_assoc, ih, List.filterMap_cons, target]
      cases statement.target? <;> rfl

/-- **A walk that goes on with all bodies** visits exactly the statements of the trees. -/
theorem Runs.nodes_eq (forest : pool.IsForest roots) {walk : Walk σ}
    (whole : ∀ state statement, walk.enter state statement = statement.children) {state last : σ}
    (runs : walk.Runs pool state pending last visited) :
    StatementTree.nodesOfBody (pending.map (StatementTree.ofIndex pool pool.size)) =
      visited.map (StatementTree.ofIndex pool pool.size) := by
  induction runs with
  | done => rfl
  | skip allowed => exact allowed.elim
  | @visit state last index statement pending visited present rest ih =>
      rw [whole, List.map_append, StatementTree.nodesOfBody_append] at ih
      rw [List.map_cons, StatementTree.nodesOfBody, forest.ofIndex_of_get? present,
        StatementTree.nodes_treeOver, List.cons_append, ih, List.map_cons,
        forest.ofIndex_of_get? present]

/-- Every number that is visited names a statement. -/
theorem Ends.lt_size {walk : Walk σ} {state last : σ}
    (ends : walk.Ends pool lenient state pending last visited) :
    ∀ index ∈ visited, index < pool.size := by
  induction ends with
  | done => exact List.forall_mem_nil _
  | skip allowed absent rest ih => exact ih
  | visit present rest ih => exact List.forall_mem_cons.mpr ⟨Pool.lt_size_of_get? present, ih⟩

end Walk

end MiniVerilog
