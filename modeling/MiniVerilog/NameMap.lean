/-! # Maps from names

A map is the list of its entries in ascending order of names, so two maps are
equal when they hold the same values, and going through a map meets the names in
order. The order of names is that of their code points.
-/

namespace MiniVerilog

/-- A finite map from names. -/
structure NameMap (α : Type) where
  entries : List (String × α)
  ascending : entries.Pairwise fun first second => first.1 < second.1

namespace NameMap

variable {α β : Type}

instance [DecidableEq α] : DecidableEq (NameMap α) := fun first second =>
  if same : first.entries = second.entries then
    isTrue (by cases first; cases second; cases same; rfl)
  else isFalse fun equal => same (congrArg entries equal)

instance [Repr α] : Repr (NameMap α) where
  reprPrec map priority := reprPrec map.entries priority

/-- The map without names. -/
def empty : NameMap α :=
  ⟨[], .nil⟩

instance : Inhabited (NameMap α) :=
  ⟨empty⟩

instance : EmptyCollection (NameMap α) :=
  ⟨empty⟩

/-- The value of a name. -/
def get? (map : NameMap α) (name : String) : Option α :=
  (map.entries.find? fun entry => entry.1 = name).map (·.2)

/-- The map has a value for the name. -/
def contains (map : NameMap α) (name : String) : Bool :=
  map.entries.any fun entry => entry.1 = name

/-- The names in ascending order. -/
def names (map : NameMap α) : List String :=
  map.entries.map (·.1)

/-- The number of names. -/
def size (map : NameMap α) : Nat :=
  map.entries.length

/-- There are no names. -/
def isEmpty (map : NameMap α) : Bool :=
  map.entries.isEmpty

/-- Puts an entry in its place in ascending entries, or in the place of the entry
with its name. -/
def insertEntry (name : String) (value : α) : List (String × α) → List (String × α)
  | [] => [(name, value)]
  | (first, held) :: rest =>
    if name < first then (name, value) :: (first, held) :: rest
    else if name = first then (name, value) :: rest
    else (first, held) :: insertEntry name value rest

/-- Inserting an entry adds no other one. -/
theorem mem_insertEntry {name : String} {value : α} {entries : List (String × α)}
    {entry : String × α} (member : entry ∈ insertEntry name value entries) :
    entry = (name, value) ∨ entry ∈ entries := by
  fun_induction insertEntry name value entries with
  | case1 => exact Or.inl (List.mem_singleton.mp member)
  | case2 first held rest _ => exact List.mem_cons.mp member
  | case3 held rest _ =>
    rcases List.mem_cons.mp member with here | there
    · exact Or.inl here
    · exact Or.inr (List.mem_cons_of_mem _ there)
  | case4 first held rest _ _ inner =>
    rcases List.mem_cons.mp member with here | there
    · exact Or.inr (here ▸ List.mem_cons_self)
    · rcases inner there with here | there
      · exact Or.inl here
      · exact Or.inr (List.mem_cons_of_mem _ there)

/-- **Inserting an entry keeps the names ascending**, as it goes to its place. -/
theorem ascending_insertEntry {name : String} {value : α} {entries : List (String × α)}
    (ascending : entries.Pairwise fun first second => first.1 < second.1) :
    (insertEntry name value entries).Pairwise fun first second => first.1 < second.1 := by
  fun_induction insertEntry name value entries with
  | case1 => exact List.pairwise_singleton _ _
  | case2 first held rest less =>
    refine List.pairwise_cons.mpr ⟨fun entry member => ?_, ascending⟩
    rcases List.mem_cons.mp member with here | there
    · exact here ▸ less
    · exact String.lt_trans less ((List.pairwise_cons.mp ascending).1 entry there)
  | case3 held rest _ =>
    obtain ⟨later, ascending⟩ := List.pairwise_cons.mp ascending
    exact List.pairwise_cons.mpr ⟨later, ascending⟩
  | case4 first held rest notLess different inner =>
    obtain ⟨later, ascending⟩ := List.pairwise_cons.mp ascending
    refine List.pairwise_cons.mpr ⟨fun entry member => ?_, inner ascending⟩
    rcases mem_insertEntry member with here | there
    · exact here ▸ Std.lt_of_le_of_ne (Std.not_lt.mp notLess) (Ne.symm different)
    · exact later entry there

/-- Gives a name a value. -/
def insert (map : NameMap α) (name : String) (value : α) : NameMap α :=
  ⟨insertEntry name value map.entries, ascending_insertEntry map.ascending⟩

/-- The map of a list of entries, of which a later one wins. -/
def ofList (entries : List (String × α)) : NameMap α :=
  entries.foldl (fun map entry => map.insert entry.1 entry.2) empty

/-- The values of the second map over those of the first. -/
def overlay (lower upper : NameMap α) : NameMap α :=
  upper.entries.foldl (fun map entry => map.insert entry.1 entry.2) lower

/-- The same names with other values. -/
def mapWithName (change : String → α → β) (map : NameMap α) : NameMap β where
  entries := map.entries.map fun entry => (entry.1, change entry.1 entry.2)
  ascending := by
    rw [List.pairwise_map]
    exact map.ascending

/-- The entries whose name has a property. -/
def filterNames (property : String → Bool) (map : NameMap α) : NameMap α where
  entries := map.entries.filter fun entry => property entry.1
  ascending := map.ascending.sublist List.filter_sublist

end NameMap

end MiniVerilog
