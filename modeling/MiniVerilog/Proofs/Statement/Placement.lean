import MiniVerilog.Module.Elaborate

/-! # Placed statements are found again

A pool only grows, and every statement is placed after the statements of its bodies.
So the trees below the numbers that placing gives are the statements that were placed
(`MiniVerilog.placeBody_represents`), in the pool at that moment and in every later
one.
-/

namespace MiniVerilog

/-- Everything in a pool is in the later pool under the same number. -/
structure Pool.Extends {α : Type} (pool later : Pool α) : Prop where
  size_le : pool.size ≤ later.size
  get?_eq : ∀ index < pool.size, later.get? index = pool.get? index

namespace Pool.Extends

variable {α : Type} {pool later last : Pool α}

theorem refl (pool : Pool α) : pool.Extends pool :=
  ⟨Nat.le_refl _, fun _ _ => rfl⟩

theorem trans (first : pool.Extends later) (second : later.Extends last) : pool.Extends last :=
  ⟨Nat.le_trans first.size_le second.size_le, fun index inside =>
    (second.get?_eq index (Nat.lt_of_lt_of_le inside first.size_le)).trans
      (first.get?_eq index inside)⟩

/-- A new item leaves the others where they are. -/
theorem alloc (pool : Pool α) (item : α) : pool.Extends (pool.alloc item).2 := by
  constructor
  · simp only [Pool.alloc, Pool.size, Array.size_push]
    exact Nat.le_succ _
  · intro index inside
    simp only [Pool.alloc, Pool.get?]
    rw [Array.getElem?_push_lt inside, ← Array.getElem?_eq_getElem inside]

end Pool.Extends

/-- A new item is found under its number. -/
theorem Pool.get?_alloc {α : Type} (pool : Pool α) (item : α) :
    (pool.alloc item).2.get? (pool.alloc item).1 = some item :=
  Array.getElem?_push_size

theorem Pool.size_alloc {α : Type} (pool : Pool α) (item : α) :
    (pool.alloc item).2.size = (pool.alloc item).1 + 1 :=
  Array.size_push ..

mutual

/-- The trees that a statement stands for; a loop stands for none. -/
def Source.Procedure.trees : Source.Procedure → List StatementTree
  | .assign target expression blocking line => [.assign target expression blocking line]
  | .branch condition thenBody elseBody =>
    [.branch condition (Source.treesOfBody thenBody) (Source.treesOfBody elseBody)]
  | .select subject items =>
    [.select subject (Source.treesOfArms items) (Source.treesOfOtherwise [] items)]
  | .loop _ => []

/-- The trees of the statements of a body. -/
def Source.treesOfBody : List Source.Procedure → List StatementTree
  | [] => []
  | procedure :: following => procedure.trees ++ Source.treesOfBody following

/-- The alternatives of a case statement. -/
def Source.treesOfArms : List Source.CaseItem → List (List String × List StatementTree)
  | [] => []
  | .arm labels body :: following =>
    (labels, Source.treesOfBody body) :: Source.treesOfArms following
  | .otherwise _ :: following => Source.treesOfArms following

/-- The trees of the default body, which is the last one written. -/
def Source.treesOfOtherwise (otherwise : List StatementTree) :
    List Source.CaseItem → List StatementTree
  | [] => otherwise
  | .arm _ _ :: following => Source.treesOfOtherwise otherwise following
  | .otherwise body :: following => Source.treesOfOtherwise (Source.treesOfBody body) following

end

/-- The trees of a body are those of its parts, in order. -/
theorem Source.treesOfBody_append (first others : List Source.Procedure) :
    Source.treesOfBody (first ++ others) =
      Source.treesOfBody first ++ Source.treesOfBody others := by
  induction first with
  | nil => rfl
  | cons procedure first ih =>
      rw [List.cons_append, Source.treesOfBody, ih, Source.treesOfBody, List.append_assoc]

/-- In this pool and in every later one the numbers stand for the trees. -/
def Represents (pool : Pool Statement) (indices : List Nat) (trees : List StatementTree) : Prop :=
  ∀ later, pool.Extends later → ∀ depth, pool.size ≤ depth →
    indices.map (StatementTree.ofIndex later depth) = trees

/-- In this pool and in every later one the arms stand for the alternatives. -/
def RepresentsArms (pool : Pool Statement) (arms : List CaseArm)
    (trees : List (List String × List StatementTree)) : Prop :=
  ∀ later, pool.Extends later → ∀ depth, pool.size ≤ depth →
    (arms.map fun arm => (arm.labels, arm.body.map (StatementTree.ofIndex later depth))) = trees

section Represents

variable {pool later : Pool Statement} {indices others : List Nat}
  {trees following : List StatementTree}

/-- Numbers that stand for trees do so in every later pool. -/
theorem Represents.mono (represents : Represents pool indices trees)
    (grows : pool.Extends later) : Represents later indices trees :=
  fun last beyond depth deep =>
    represents last (grows.trans beyond) depth (Nat.le_trans grows.size_le deep)

/-- Arms that stand for alternatives do so in every later pool. -/
theorem RepresentsArms.mono {arms : List CaseArm} {trees : List (List String × List StatementTree)}
    (represents : RepresentsArms pool arms trees) (grows : pool.Extends later) :
    RepresentsArms later arms trees :=
  fun last beyond depth deep =>
    represents last (grows.trans beyond) depth (Nat.le_trans grows.size_le deep)

theorem Represents.nil (pool : Pool Statement) : Represents pool [] [] :=
  fun _ _ _ _ => rfl

/-- The numbers of two bodies stand for the trees of both. -/
theorem Represents.append (first : Represents pool indices trees)
    (second : Represents pool others following) :
    Represents pool (indices ++ others) (trees ++ following) := by
  intro last beyond depth deep
  rw [List.map_append, first last beyond depth deep, second last beyond depth deep]

/-- A statement that is placed after its bodies stands for its tree. -/
theorem Represents.alloc {statement : Statement} {tree : StatementTree}
    (reads : ∀ later, pool.Extends later → ∀ depth, pool.size ≤ depth →
      later.get? pool.size = some statement →
        StatementTree.ofIndex later (depth + 1) pool.size = tree) :
    Represents (pool.alloc statement).2 [(pool.alloc statement).1] [tree] := by
  intro last beyond depth deep
  rw [Pool.size_alloc] at deep
  obtain ⟨depth, rfl⟩ : ∃ less, depth = less + 1 := ⟨depth - 1, by omega⟩
  have present : last.get? pool.size = some statement := by
    rw [beyond.get?_eq _ (by rw [Pool.size_alloc]; exact Nat.lt_succ_self _)]
    exact pool.get?_alloc statement
  rw [List.map_singleton]
  exact congrArg (· :: []) (reads last ((Pool.Extends.alloc pool statement).trans beyond) depth
    (Nat.le_of_succ_le_succ deep) present)

end Represents

mutual

/-- **A statement is placed under numbers that stand for its trees**, and the pool only grows. The
functions recurse through one another on the structure of what was read. -/
theorem Source.Procedure.place_represents (procedure : Source.Procedure) (pool : Pool Statement) :
    pool.Extends (procedure.place pool).2 ∧
      Represents (procedure.place pool).2 (procedure.place pool).1 procedure.trees := by
  match procedure with
  | .assign target expression blocking line =>
      refine ⟨Pool.Extends.alloc pool _, Represents.alloc ?_⟩
      intro later _ depth _ present
      rw [StatementTree.ofIndex, present]
  | .branch condition thenBody elseBody =>
      obtain ⟨thenGrows, thenTrees⟩ := placeBody_represents thenBody pool
      obtain ⟨elseGrows, elseTrees⟩ := placeBody_represents elseBody (placeBody thenBody pool).2
      refine ⟨(thenGrows.trans elseGrows).trans (Pool.Extends.alloc _ _), Represents.alloc ?_⟩
      intro later grows depth deep present
      rw [StatementTree.ofIndex, present]
      simp only [(thenTrees.mono elseGrows) later grows depth deep,
        elseTrees later grows depth deep]
  | .select subject items =>
      obtain ⟨grown, arms, otherwise⟩ := placeItems_represents items (Represents.nil pool)
      refine ⟨grown.trans (Pool.Extends.alloc _ _), Represents.alloc ?_⟩
      intro later grows depth deep present
      rw [StatementTree.ofIndex, present]
      simp only [arms later grows depth deep, otherwise later grows depth deep]
  | .loop body => exact ⟨(placeBody_represents body pool).1, Represents.nil _⟩

/-- **The numbers that placing gives stand for what was placed.** -/
theorem placeBody_represents (body : List Source.Procedure) (pool : Pool Statement) :
    pool.Extends (placeBody body pool).2 ∧
      Represents (placeBody body pool).2 (placeBody body pool).1 (Source.treesOfBody body) := by
  match body with
  | [] => exact ⟨Pool.Extends.refl pool, Represents.nil pool⟩
  | procedure :: following =>
      obtain ⟨firstGrows, first⟩ := procedure.place_represents pool
      obtain ⟨othersGrow, others⟩ := placeBody_represents following (procedure.place pool).2
      exact ⟨firstGrows.trans othersGrow, (first.mono othersGrow).append others⟩

/-- The entries of a case statement are placed under numbers that stand for their alternatives, and
for the default that was written last. -/
theorem placeItems_represents (items : List Source.CaseItem) {otherwise : List Nat}
    {trees : List StatementTree} {pool : Pool Statement}
    (represents : Represents pool otherwise trees) :
    pool.Extends (placeItems items otherwise pool).2.2 ∧
      RepresentsArms (placeItems items otherwise pool).2.2 (placeItems items otherwise pool).1
        (Source.treesOfArms items) ∧
      Represents (placeItems items otherwise pool).2.2 (placeItems items otherwise pool).2.1
        (Source.treesOfOtherwise trees items) := by
  match items with
  | [] => exact ⟨Pool.Extends.refl pool, fun _ _ _ _ => rfl, represents⟩
  | .arm labels body :: following =>
      obtain ⟨bodyGrows, trees⟩ := placeBody_represents body pool
      obtain ⟨othersGrow, arms, default⟩ :=
        placeItems_represents following (represents.mono bodyGrows)
      refine ⟨bodyGrows.trans othersGrow, ?_, default⟩
      intro later grows depth deep
      have first := (trees.mono othersGrow) later grows depth deep
      have others := arms later grows depth deep
      simp only [placeItems, List.map_cons, first, others, Source.treesOfArms]
  | .otherwise body :: following =>
      obtain ⟨bodyGrows, trees⟩ := placeBody_represents body pool
      obtain ⟨othersGrow, arms, default⟩ := placeItems_represents following trees
      exact ⟨bodyGrows.trans othersGrow, arms, default⟩

end

end MiniVerilog
