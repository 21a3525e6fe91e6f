import Mathlib.Data.List.Nodup
import Mathlib.Data.List.Perm.Subperm
import MiniVerilog.Proofs.Statement.Placement

/-! # Pools are forests

Statements are placed after the statements of their bodies, and a body takes every number that
placing gives or none of them. So a number in a body is smaller than that of the statement it
belongs to and stands in no other body (`MiniVerilog.placeBody_forest`), and the tree below a
number does not depend on how deep it is read (`MiniVerilog.Pool.IsForest.ofIndex_eq`).
-/

namespace MiniVerilog

/-- The numbers in the bodies of a statement. -/
def Statement.children : Statement → List Nat
  | assign .. => []
  | branch _ thenBody elseBody => thenBody ++ elseBody
  | select _ arms otherwise => arms.flatMap CaseArm.body ++ otherwise

/-- The tree of a statement, given the trees of the numbers in its bodies. -/
def Statement.treeOver (tree : Nat → StatementTree) : Statement → StatementTree
  | assign target expression blocking line => .assign target expression blocking line
  | branch condition thenBody elseBody =>
    .branch condition (thenBody.map tree) (elseBody.map tree)
  | select subject arms otherwise =>
    .select subject (arms.map fun arm => (arm.labels, arm.body.map tree)) (otherwise.map tree)

/-- The tree of a statement depends on the trees of its children only. -/
theorem Statement.treeOver_congr {tree other : Nat → StatementTree} {statement : Statement}
    (same : ∀ child ∈ statement.children, tree child = other child) :
    statement.treeOver tree = statement.treeOver other := by
  have body {indices : List Nat} (inside : indices ⊆ statement.children) :
      indices.map tree = indices.map other :=
    List.map_congr_left fun child member => same child (inside member)
  cases statement with
  | assign => rfl
  | branch condition thenBody elseBody =>
      rw [treeOver, treeOver, body (List.subset_append_left thenBody elseBody),
        body (List.subset_append_right thenBody elseBody)]
  | select subject arms otherwise =>
      have alternatives : (arms.map fun arm => (arm.labels, arm.body.map tree)) =
          arms.map fun arm => (arm.labels, arm.body.map other) := by
        refine List.map_congr_left fun arm member => ?_
        rw [body fun index inBody => List.mem_append_left _
          (List.mem_flatMap.mpr ⟨arm, member, inBody⟩)]
      rw [treeOver, treeOver, alternatives, body (List.subset_append_right _ otherwise)]

/-- The tree below a number is that of its statement over the trees below its children, one level
less deep. -/
theorem StatementTree.ofIndex_succ (pool : Pool Statement) (depth index : Nat) :
    ofIndex pool (depth + 1) index =
      ((pool.get? index).map (Statement.treeOver (ofIndex pool depth))).getD missing := by
  rw [ofIndex]
  cases pool.get? index with
  | none => rfl
  | some statement => cases statement <;> rfl

/-- A number that names no statement stands for a missing tree. -/
theorem StatementTree.ofIndex_of_absent {pool : Pool Statement} {index : Nat}
    (absent : pool.get? index = none) (depth : Nat) : ofIndex pool depth index = missing := by
  cases depth with
  | zero => rfl
  | succ depth =>
      rw [ofIndex_succ, absent]
      rfl

namespace Pool

/-- The numbers in the bodies of all statements. -/
def children (pool : Pool Statement) : List Nat :=
  pool.items.toList.flatMap Statement.children

/-- The statements form a forest with these roots: every number names a statement, a body has
only smaller numbers than its statement, and no number stands twice. -/
structure IsForest (pool : Pool Statement) (roots : List Nat) : Prop where
  inside : ∀ index ∈ roots ++ pool.children, index < pool.size
  below : ∀ index statement, pool.get? index = some statement →
    ∀ child ∈ statement.children, child < index
  once : (roots ++ pool.children).Nodup

theorem children_alloc (pool : Pool Statement) (statement : Statement) :
    (pool.alloc statement).2.children = pool.children ++ statement.children := by
  rw [children, children, alloc, Array.toList_push, List.flatMap_append, List.flatMap_singleton]

theorem lt_size_of_get? {α : Type} {pool : Pool α} {index : Nat} {item : α}
    (present : pool.get? index = some item) : index < pool.size :=
  (Array.getElem?_eq_some_iff.mp present).1

theorem exists_of_lt_size {α : Type} {pool : Pool α} {index : Nat} (inside : index < pool.size) :
    ∃ item, pool.get? index = some item :=
  ⟨pool.items[index], Array.getElem?_eq_getElem inside⟩

/-- A number stands in a body of the statement with another number. -/
def HasChild (pool : Pool Statement) (index child : Nat) : Prop :=
  ∃ statement, pool.get? index = some statement ∧ child ∈ statement.children

/-- A rank falls from a statement to the numbers in its bodies, so it bounds how deep statements
are nested below it. -/
structure IsRank (pool : Pool Statement) (rank : Nat → Nat) : Prop where
  pos : ∀ index < pool.size, 0 < rank index
  falls : ∀ index child, pool.HasChild index child → rank child < rank index

/-- **The tree below a number is the same at every depth that is not less than its rank.** -/
theorem IsRank.ofIndex_eq {pool : Pool Statement} {rank : Nat → Nat} (ranked : pool.IsRank rank)
    {index depth other : Nat} (deep : rank index ≤ depth) (otherDeep : rank index ≤ other) :
    StatementTree.ofIndex pool depth index = StatementTree.ofIndex pool other index := by
  induction depth generalizing index other with
  | zero =>
      have absent : pool.get? index = none := by
        refine Option.eq_none_iff_forall_ne_some.mpr fun statement present => ?_
        have positive := ranked.pos index (lt_size_of_get? present)
        omega
      rw [StatementTree.ofIndex_of_absent absent, StatementTree.ofIndex_of_absent absent]
  | succ depth ih =>
      cases present : pool.get? index with
      | none =>
          rw [StatementTree.ofIndex_of_absent present, StatementTree.ofIndex_of_absent present]
      | some statement =>
          have positive := ranked.pos index (lt_size_of_get? present)
          obtain ⟨other, rfl⟩ : ∃ less, other = less + 1 := ⟨other - 1, by omega⟩
          rw [StatementTree.ofIndex_succ, StatementTree.ofIndex_succ, present]
          refine Statement.treeOver_congr fun child member => ?_
          have smaller := ranked.falls index child ⟨statement, present, member⟩
          exact ih (by omega) (by omega)

theorem mem_items_of_get? {pool : Pool Statement} {index : Nat} {statement : Statement}
    (present : pool.get? index = some statement) : statement ∈ pool.items.toList :=
  Array.mem_toList_iff.mpr (Array.mem_of_getElem? present)

theorem mem_children {pool : Pool Statement} {index child : Nat} {statement : Statement}
    (present : pool.get? index = some statement) (member : child ∈ statement.children) :
    child ∈ pool.children :=
  List.mem_flatMap.mpr ⟨statement, mem_items_of_get? present, member⟩

namespace IsForest

variable {pool : Pool Statement} {roots others : List Nat}

theorem empty : (Pool.empty : Pool Statement).IsForest [] where
  inside := List.forall_mem_nil _
  below := fun _ _ present => nomatch present
  once := List.nodup_nil

/-- Roots may be left out, and their order does not matter. -/
theorem subperm (forest : pool.IsForest roots) (fewer : others.Subperm roots) :
    pool.IsForest others where
  inside index member := by
    refine forest.inside index ?_
    rw [List.mem_append] at member ⊢
    exact member.imp_left fun root => fewer.subset root
  below := forest.below
  once := by
    obtain ⟨kept, same, sublist⟩ := fewer
    have once := forest.once.sublist (sublist.append (List.Sublist.refl pool.children))
    exact (same.append_right pool.children).nodup_iff.mp once

/-- **A statement takes the place of its children among the roots.** -/
theorem alloc {statement : Statement} (forest : pool.IsForest (roots ++ statement.children)) :
    (pool.alloc statement).2.IsForest (roots ++ [(pool.alloc statement).1]) := by
  have inside : ∀ index ∈ roots ++ (pool.children ++ statement.children), index < pool.size := by
    intro index member
    refine forest.inside index ?_
    simp only [List.mem_append] at member ⊢
    rcases member with root | old | new
    · exact .inl (.inl root)
    · exact .inr old
    · exact .inl (.inr new)
  have new : pool.size ∉ roots ++ (pool.children ++ statement.children) :=
    fun member => Nat.lt_irrefl _ (inside _ member)
  have shape : (roots ++ [pool.size] ++ (pool.children ++ statement.children)).Perm
      (pool.size :: (roots ++ (pool.children ++ statement.children))) := by
    rw [List.append_assoc, List.singleton_append]
    exact List.perm_middle
  constructor
  · intro index member
    rw [children_alloc] at member
    rw [size_alloc]
    rcases List.mem_cons.mp (shape.mem_iff.mp member) with rfl | old
    · exact Nat.lt_succ_self _
    · exact Nat.lt_succ_of_lt (inside index old)
  · intro index other present child member
    have small := lt_size_of_get? present
    rw [size_alloc] at small
    -- The statement is an old one, or the new one, whose children were there before it.
    rcases Nat.lt_succ_iff_lt_or_eq.mp small with before | rfl
    · rw [(Extends.alloc pool statement).get?_eq index before] at present
      exact forest.below index other present child member
    · rw [get?_alloc] at present
      cases present
      exact inside child (List.mem_append_right _ (List.mem_append_right _ member))
  · rw [children_alloc]
    refine shape.nodup_iff.mpr (List.nodup_cons.mpr ⟨new, ?_⟩)
    have same : (roots ++ statement.children ++ pool.children).Perm
        (roots ++ (pool.children ++ statement.children)) := by
      rw [List.append_assoc]
      exact List.perm_append_comm.append_left roots
    exact same.nodup_iff.mp forest.once

theorem nodup_children (forest : pool.IsForest roots) {index : Nat} {statement : Statement}
    (present : pool.get? index = some statement) : statement.children.Nodup :=
  (List.nodup_flatMap.mp (List.nodup_append.mp forest.once).2.1).1 statement
    (mem_items_of_get? present)

/-- A number in a body is no root. -/
theorem not_mem_roots (forest : pool.IsForest roots) {index child : Nat} {statement : Statement}
    (present : pool.get? index = some statement) (member : child ∈ statement.children) :
    child ∉ roots :=
  fun root => (List.nodup_append.mp forest.once).2.2 child root child
    (mem_children present member) rfl

/-- A number stands in the bodies of one statement only. -/
theorem parent_unique (forest : pool.IsForest roots) {first second child : Nat}
    {statement other : Statement} (present : pool.get? first = some statement)
    (otherPresent : pool.get? second = some other) (member : child ∈ statement.children)
    (otherMember : child ∈ other.children) : first = second := by
  have apart := (List.nodup_flatMap.mp (List.nodup_append.mp forest.once).2.1).2
  rw [List.pairwise_iff_getElem] at apart
  have place {index : Nat} {statement : Statement} (present : pool.get? index = some statement) :
      ∃ bound : index < pool.items.toList.length, pool.items.toList[index] = statement := by
    obtain ⟨bound, same⟩ := Array.getElem?_eq_some_iff.mp present
    exact ⟨bound, (Array.getElem_toList bound).trans same⟩
  obtain ⟨firstBound, rfl⟩ := place present
  obtain ⟨secondBound, rfl⟩ := place otherPresent
  rcases Nat.lt_trichotomy first second with less | same | greater
  · exact (apart first second firstBound secondBound less member otherMember).elim
  · exact same
  · exact (apart second first secondBound firstBound greater otherMember member).elim

/-- The numbers themselves are ranks. -/
theorem isRank (forest : pool.IsForest roots) : pool.IsRank (· + 1) where
  pos index _ := Nat.succ_pos index
  falls := by
    rintro index child ⟨statement, present, member⟩
    exact Nat.succ_lt_succ (forest.below index statement present child member)

/-- **The tree below a number is the same at every depth greater than the number.** -/
theorem ofIndex_eq (forest : pool.IsForest roots) {index depth other : Nat}
    (deep : index < depth) (otherDeep : index < other) :
    StatementTree.ofIndex pool depth index = StatementTree.ofIndex pool other index :=
  forest.isRank.ofIndex_eq deep otherDeep

/-- The tree of a statement has the trees of its bodies below it, whatever the depth. -/
theorem ofIndex_of_get? (forest : pool.IsForest roots) {index : Nat} {statement : Statement}
    (present : pool.get? index = some statement) :
    StatementTree.ofIndex pool pool.size index =
      statement.treeOver (StatementTree.ofIndex pool pool.size) := by
  have inside : index < pool.size := lt_size_of_get? present
  rw [forest.ofIndex_eq inside (Nat.lt_succ_of_lt inside), StatementTree.ofIndex_succ, present]
  rfl

end IsForest

end Pool

mutual

/-- **Placing a statement keeps the forest**, and what was placed becomes a root. The functions
recurse through one another on the structure of what was read. -/
theorem Source.Procedure.place_forest (procedure : Source.Procedure) {pool : Pool Statement}
    {roots : List Nat} (forest : pool.IsForest roots) :
    (procedure.place pool).2.IsForest (roots ++ (procedure.place pool).1) := by
  match procedure with
  | .assign target expression blocking line =>
      refine Pool.IsForest.alloc ?_
      rw [Statement.children, List.append_nil]
      exact forest
  | .branch condition thenBody elseBody =>
      have bodies := placeBody_forest elseBody (placeBody_forest thenBody forest)
      rw [List.append_assoc] at bodies
      exact bodies.alloc
  | .select subject items =>
      have bare : pool.IsForest (roots ++ []) := by
        rw [List.append_nil]
        exact forest
      exact (placeItems_forest items bare).alloc
  | .loop body =>
      -- The numbers of the body are roots that nothing takes up.
      refine (placeBody_forest body forest).subperm ?_
      rw [Source.Procedure.place, List.append_nil]
      exact (List.sublist_append_left _ _).subperm

/-- **Placing a body keeps the forest** and adds the numbers it gives to the roots. -/
theorem placeBody_forest (body : List Source.Procedure) {pool : Pool Statement}
    {roots : List Nat} (forest : pool.IsForest roots) :
    (placeBody body pool).2.IsForest (roots ++ (placeBody body pool).1) := by
  match body with
  | [] =>
      rw [placeBody, List.append_nil]
      exact forest
  | procedure :: following =>
      have others := placeBody_forest following (procedure.place_forest forest)
      rw [List.append_assoc] at others
      exact others

/-- Placing the entries of a case statement keeps the forest, and their bodies become roots. A
default that is given again leaves the statements of the one before to no body. -/
theorem placeItems_forest (items : List Source.CaseItem) {pool : Pool Statement}
    {roots otherwise : List Nat} (forest : pool.IsForest (roots ++ otherwise)) :
    (placeItems items otherwise pool).2.2.IsForest
      (roots ++ ((placeItems items otherwise pool).1.flatMap CaseArm.body ++
        (placeItems items otherwise pool).2.1)) := by
  match items with
  | [] => exact forest
  | .arm labels body :: following =>
      have reordered : (placeBody body pool).2.IsForest
          (roots ++ (placeBody body pool).1 ++ otherwise) := by
        refine (placeBody_forest body forest).subperm ?_
        rw [List.append_assoc, List.append_assoc]
        exact (List.perm_append_comm.append_left roots).subperm
      have others := placeItems_forest following reordered
      rw [List.append_assoc] at others
      rw [placeItems, List.flatMap_cons, List.append_assoc]
      exact others
  | .otherwise body :: following =>
      -- The default body before is lost.
      have fewer : (placeBody body pool).2.IsForest (roots ++ (placeBody body pool).1) :=
        (placeBody_forest body forest).subperm
          ((List.sublist_append_left roots otherwise).append_right _).subperm
      exact placeItems_forest following fewer

end

end MiniVerilog
