/-! # Pools of items named by their place

A pool only grows, and an item keeps the number it was given, which is the size
of the pool before it was added.
-/

namespace MiniVerilog

/-- A growing store of items, numbered from 0. -/
structure Pool (α : Type) where
  items : Array α
  deriving DecidableEq, Repr

/-- The reason why an item cannot be fetched. -/
inductive PoolError where
  | outOfRange (size index : Nat)
  deriving DecidableEq, Repr

/-- The wording of the error. -/
def PoolError.message : PoolError → String
  | outOfRange size index =>
    s!"index out of bounds: the len is {size} but the index is {index}"

namespace Pool

variable {α : Type}

/-- The pool without items. -/
def empty : Pool α :=
  ⟨#[]⟩

/-- The number of items. -/
def size (pool : Pool α) : Nat :=
  pool.items.size

/-- Adds an item and gives its number. -/
def alloc (pool : Pool α) (item : α) : Nat × Pool α :=
  (pool.size, ⟨pool.items.push item⟩)

/-- The item with the given number. -/
def get? (pool : Pool α) (index : Nat) : Option α :=
  pool.items[index]?

/-- The item with the given number, which has to exist. -/
def fetch (pool : Pool α) (index : Nat) : Except PoolError α :=
  match pool.get? index with
  | some item => .ok item
  | none => .error (.outOfRange pool.size index)

/-- The numbers of all items. -/
def indices (pool : Pool α) : List Nat :=
  List.range pool.size

end Pool

end MiniVerilog
