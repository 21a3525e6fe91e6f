import Mathlib.Data.Finset.Card
import Mathlib.Logic.Relation
import MiniVerilog.Proofs.Statement.Forest

/-! # Pools without cycles

In a pool that was not read from source text a number may stand in several bodies, before or after
the statement it belongs to, or name no statement. As long as no number comes back to itself, the
statements that can be reached from a number bound how deep its tree is
(`MiniVerilog.Pool.IsAcyclic.isRank`), so the tree shows all of them
(`MiniVerilog.Pool.IsAcyclic.ofIndex_of_get?`).
-/

namespace MiniVerilog.Pool

open Relation (ReflTransGen TransGen)

/-- No number stands below itself. -/
def IsAcyclic (pool : Pool Statement) : Prop :=
  ∀ index, ¬ TransGen pool.HasChild index index

/-- A number stands in a body or below a number in it. -/
def Reaches (pool : Pool Statement) (body : List Nat) (index : Nat) : Prop :=
  ∃ root ∈ body, ReflTransGen pool.HasChild root index

/-- The name that the statement with a number assigns itself. -/
def target? (pool : Pool Statement) (index : Nat) : Option String :=
  (pool.get? index).bind Statement.target?

open Classical in
/-- The statements that stand below a number, with its own. -/
noncomputable def reachable (pool : Pool Statement) (index : Nat) : Finset Nat :=
  (Finset.range pool.size).filter fun other => ReflTransGen pool.HasChild index other

variable {pool : Pool Statement}

theorem mem_reachable {index other : Nat} :
    other ∈ pool.reachable index ↔ other < pool.size ∧ ReflTransGen pool.HasChild index other := by
  simp only [reachable, Finset.mem_filter, Finset.mem_range]

/-- No more statements can be reached than there are. -/
theorem card_reachable_le (pool : Pool Statement) (index : Nat) :
    (pool.reachable index).card ≤ pool.size := by
  have inside : pool.reachable index ⊆ Finset.range pool.size :=
    fun other member => Finset.mem_range.mpr (mem_reachable.mp member).1
  have card := Finset.card_le_card inside
  rwa [Finset.card_range] at card

/-- **Without cycles there is a rank**: a number in a body reaches fewer statements than the
statement the body belongs to, which it does not reach. -/
theorem IsAcyclic.isRank (acyclic : pool.IsAcyclic) :
    pool.IsRank fun index => (pool.reachable index).card where
  pos index inside := Finset.card_pos.mpr ⟨index, mem_reachable.mpr ⟨inside, .refl⟩⟩
  falls index child below := by
    refine Finset.card_lt_card ((Finset.ssubset_iff_of_subset ?_).mpr ⟨index, ?_, ?_⟩)
    · intro other member
      obtain ⟨inside, path⟩ := mem_reachable.mp member
      exact mem_reachable.mpr ⟨inside, path.head below⟩
    · obtain ⟨statement, present, -⟩ := below
      exact mem_reachable.mpr ⟨lt_size_of_get? present, .refl⟩
    · exact fun back => acyclic index (TransGen.head' below (mem_reachable.mp back).2)

/-- With a rank there are no cycles. -/
theorem IsRank.isAcyclic {rank : Nat → Nat} (ranked : pool.IsRank rank) : pool.IsAcyclic := by
  have falls {first last : Nat} (path : TransGen pool.HasChild first last) :
      rank last < rank first := by
    induction path with
    | single below => exact ranked.falls first _ below
    | tail _ below ih => exact (ranked.falls _ _ below).trans ih
  exact fun index cycle => Nat.lt_irrefl _ (falls cycle)

/-- A forest has no cycles, as numbers fall along it. -/
theorem IsForest.isAcyclic {roots : List Nat} (forest : pool.IsForest roots) : pool.IsAcyclic :=
  forest.isRank.isAcyclic

/-- **The tree of a statement has the trees of all its bodies below it**: no statement is too deep
to be read. -/
theorem IsAcyclic.ofIndex_of_get? (acyclic : pool.IsAcyclic) {index : Nat} {statement : Statement}
    (present : pool.get? index = some statement) :
    StatementTree.ofIndex pool pool.size index =
      statement.treeOver (StatementTree.ofIndex pool pool.size) := by
  have bounded := pool.card_reachable_le index
  rw [acyclic.isRank.ofIndex_eq bounded (Nat.le_succ_of_le bounded), StatementTree.ofIndex_succ,
    present]
  rfl

theorem not_reaches_nil {index : Nat} : ¬ pool.Reaches [] index :=
  fun ⟨_, member, _⟩ => List.not_mem_nil member

theorem reaches_append {first others : List Nat} {index : Nat} :
    pool.Reaches (first ++ others) index ↔
      pool.Reaches first index ∨ pool.Reaches others index := by
  simp only [Reaches, List.mem_append, or_and_right, exists_or]

theorem reaches_cons {root : Nat} {others : List Nat} {index : Nat} :
    pool.Reaches (root :: others) index ↔
      ReflTransGen pool.HasChild root index ∨ pool.Reaches others index := by
  simp only [Reaches, List.mem_cons, or_and_right, exists_or, exists_eq_left]

/-- Only itself stands below a number that names no statement. -/
theorem eq_of_absent {root index : Nat} (absent : pool.get? root = none)
    (path : ReflTransGen pool.HasChild root index) : index = root := by
  rcases path.cases_head with same | ⟨child, ⟨statement, present, -⟩, -⟩
  · exact same.symm
  · rw [absent] at present
    cases present

/-- A statement and what its bodies reach stand below its number. -/
theorem reflTransGen_iff_of_get? {root index : Nat} {statement : Statement}
    (present : pool.get? root = some statement) :
    ReflTransGen pool.HasChild root index ↔
      index = root ∨ pool.Reaches statement.children index := by
  rw [Relation.ReflTransGen.cases_head_iff, eq_comm]
  refine or_congr_right ⟨?_, ?_⟩
  · rintro ⟨child, ⟨other, otherPresent, member⟩, path⟩
    obtain rfl := Option.some.inj (present.symm.trans otherPresent)
    exact ⟨child, member, path⟩
  · rintro ⟨child, member, path⟩
    exact ⟨child, ⟨statement, present, member⟩, path⟩

end MiniVerilog.Pool
