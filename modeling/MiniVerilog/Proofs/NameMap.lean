import Mathlib.Data.List.Chain
import MiniVerilog.NameMap

/-! # Looking names up

What the operations on maps do, told by the lookups in the result. Every later
argument about maps goes through these laws and never through the entries.
-/

namespace MiniVerilog.NameMap

variable {α β : Type}

@[simp] theorem get?_empty (query : String) : (∅ : NameMap α).get? query = none :=
  rfl

/-- The lookup in a list of entries, of which the first one with the name counts. -/
def find? (query : String) (entries : List (String × α)) : Option α :=
  (entries.find? fun entry => entry.1 = query).map (·.2)

/-- The first entry counts if it has the name. -/
theorem find?_cons (query : String) (entry : String × α) (entries : List (String × α)) :
    find? query (entry :: entries) =
      if entry.1 = query then some entry.2 else find? query entries := by
  by_cases same : entry.1 = query
  · simp only [find?, List.find?_cons, same, decide_true, Option.map_some, ↓reduceIte]
  · simp only [find?, List.find?_cons, same, decide_false, ↓reduceIte]

/-- Inserting an entry changes the lookup of its name only. -/
theorem find?_insertEntry (query name : String) (value : α) (entries : List (String × α)) :
    find? query (insertEntry name value entries) =
      if name = query then some value else find? query entries := by
  fun_induction insertEntry name value entries with
  | case1 => rw [find?_cons]
  | case2 first held rest _ => rw [find?_cons]
  | case3 held rest _ =>
      rw [find?_cons, find?_cons]
      by_cases same : name = query
      · simp only [same, ↓reduceIte]
      · simp only [same, ↓reduceIte]
  | case4 first held rest _ different inner =>
      rw [find?_cons, find?_cons, inner]
      by_cases same : first = query
      · subst same
        simp only [different, ↓reduceIte]
      · simp only [same, ↓reduceIte]

theorem get?_insert (map : NameMap α) (query name : String) (value : α) :
    (map.insert name value).get? query = if name = query then some value else map.get? query :=
  find?_insertEntry query name value map.entries

/-- Of entries with distinct names only one has the name of an entry. -/
theorem filter_eq_singleton {β : Type} {nameOf : β → String} {entries : List β}
    (distinct : (entries.map nameOf).Nodup) {entry : β} (member : entry ∈ entries) :
    entries.filter (fun other => nameOf other = nameOf entry) = [entry] := by
  induction entries with
  | nil => cases member
  | cons first entries ih =>
      obtain ⟨fresh, distinct⟩ := List.nodup_cons.mp distinct
      rw [List.filter_cons]
      rcases List.mem_cons.mp member with rfl | later
      · rw [if_pos (decide_eq_true rfl), List.filter_eq_nil_iff.mpr]
        intro other inside same
        exact fresh (of_decide_eq_true same ▸ List.mem_map_of_mem inside)
      · have different : nameOf first ≠ nameOf entry :=
          fun same => fresh (same ▸ List.mem_map_of_mem later)
        rw [decide_eq_false different, ih distinct later]
        rfl

/-- Without an entry of the name nothing is found. -/
theorem find?_eq_none {query : String} {entries : List (String × α)}
    (absent : ∀ entry ∈ entries, entry.1 ≠ query) : find? query entries = none := by
  induction entries with
  | nil => rfl
  | cons entry entries ih =>
      rw [find?_cons, if_neg (absent entry List.mem_cons_self)]
      exact ih fun other member => absent other (List.mem_cons_of_mem _ member)

/-- Inserting entries with distinct names one after another puts them over the
map. -/
theorem get?_foldl_insert {entries : List (String × α)}
    (ascending : entries.Pairwise fun first second => first.1 < second.1) (map : NameMap α)
    (query : String) :
    (entries.foldl (fun map entry => map.insert entry.1 entry.2) map).get? query =
      (find? query entries).or (map.get? query) := by
  induction entries generalizing map with
  | nil => rfl
  | cons entry entries ih =>
      obtain ⟨later, ascending⟩ := List.pairwise_cons.mp ascending
      rw [List.foldl_cons, ih ascending, get?_insert, find?_cons]
      by_cases same : entry.1 = query
      · have absent : find? query entries = none := find?_eq_none fun other member =>
          same ▸ (Std.ne_of_lt (later other member)).symm
        rw [absent, if_pos same, if_pos same, Option.none_or, Option.some_or]
      · rw [if_neg same, if_neg same]

/-- A name has its upper value, or else its lower one. -/
theorem get?_overlay (lower upper : NameMap α) (query : String) :
    (lower.overlay upper).get? query = (upper.get? query).or (lower.get? query) :=
  get?_foldl_insert upper.ascending lower query

/-- Changed values are found under the same names. -/
theorem find?_map (change : String → α → β) (query : String) (entries : List (String × α)) :
    find? query (entries.map fun entry => (entry.1, change entry.1 entry.2)) =
      (find? query entries).map (change query) := by
  induction entries with
  | nil => rfl
  | cons entry entries ih =>
      rw [List.map_cons, find?_cons, find?_cons, ih]
      by_cases same : entry.1 = query
      · simp only [same, ↓reduceIte, Option.map_some]
      · simp only [same, ↓reduceIte]

theorem get?_mapWithName (change : String → α → β) (map : NameMap α) (query : String) :
    (map.mapWithName change).get? query = (map.get? query).map (change query) :=
  find?_map change query map.entries

/-- Leaving entries out by their names hides those names only. -/
theorem find?_filter (property : String → Bool) (query : String) (entries : List (String × α)) :
    find? query (entries.filter fun entry => property entry.1) =
      if property query then find? query entries else none := by
  induction entries with
  | nil => exact (ite_self _).symm
  | cons entry entries ih =>
      rw [List.filter_cons, find?_cons]
      by_cases same : entry.1 = query
      · subst same
        cases kept : property entry.1 <;> simp [kept, find?_cons, ih]
      · cases property entry.1 <;> simp [same, find?_cons, ih]

/-- Only names with the property keep their values. -/
theorem get?_filterNames (property : String → Bool) (map : NameMap α) (query : String) :
    (map.filterNames property).get? query = if property query then map.get? query else none :=
  find?_filter property query map.entries

/-- In a map made from entries that depend on the name alone, a name has the value
that goes with it. -/
theorem get?_ofList_map (value : String → α) (names : List String) (query : String) :
    (ofList (names.map fun name => (name, value name))).get? query =
      if query ∈ names then some (value query) else none := by
  suffices general : ∀ map : NameMap α,
      ((names.map fun name => (name, value name)).foldl
        (fun map entry => map.insert entry.1 entry.2) map).get? query =
      if query ∈ names then some (value query) else map.get? query from general empty
  induction names with
  | nil =>
      intro map
      simp only [List.map_nil, List.foldl_nil, List.not_mem_nil, ↓reduceIte]
  | cons name names ih =>
      intro map
      rw [List.map_cons, List.foldl_cons, ih, get?_insert]
      by_cases later : query ∈ names
      · simp only [later, List.mem_cons, or_true, ↓reduceIte]
      · by_cases same : name = query
        · subst same
          simp only [later, List.mem_cons, true_or, ↓reduceIte]
        · simp only [later, List.mem_cons, Ne.symm same, or_self, same, ↓reduceIte]

theorem contains_eq_isSome (map : NameMap α) (query : String) :
    map.contains query = (map.get? query).isSome := by
  rw [contains, get?, Option.isSome_map, List.isSome_find?]

theorem mem_names {map : NameMap α} {name : String} : name ∈ map.names ↔ map.contains name := by
  simp only [names, contains, List.mem_map, List.any_eq_true, decide_eq_true_eq]

/-- The names of a map differ from one another, as they ascend. -/
theorem nodup_names (map : NameMap α) : map.names.Nodup := by
  rw [names, List.nodup_iff_pairwise_ne, List.pairwise_map]
  exact map.ascending.imp Std.ne_of_lt

/-- Maps with the same names have the same size. -/
theorem size_eq_of_contains {first : NameMap α} {second : NameMap β}
    (same : ∀ name, first.contains name = second.contains name) : first.size = second.size := by
  have perm : first.names.Perm second.names := by
    rw [List.perm_ext_iff_of_nodup first.nodup_names second.nodup_names]
    intro name
    rw [mem_names, mem_names, same]
  have length := perm.length_eq
  rwa [names, names, List.length_map, List.length_map] at length

/-- What is found is an entry. -/
theorem mem_of_find? {query : String} {entries : List (String × α)} {value : α}
    (held : find? query entries = some value) : (query, value) ∈ entries := by
  obtain ⟨entry, found, rfl⟩ := Option.map_eq_some_iff.mp held
  have same := List.find?_some found
  rw [decide_eq_true_eq] at same
  exact same ▸ List.mem_of_find?_eq_some found

theorem mem_entries_of_get? {map : NameMap α} {name : String} {value : α}
    (held : map.get? name = some value) : (name, value) ∈ map.entries :=
  mem_of_find? held

/-- **The lookups of a map are its entries.** -/
theorem get?_eq_some_iff {map : NameMap α} {name : String} {value : α} :
    map.get? name = some value ↔ (name, value) ∈ map.entries := by
  refine ⟨mem_entries_of_get?, fun member => ?_⟩
  have only := filter_eq_singleton map.nodup_names member
  rw [get?, ← List.head?_filter, only]
  rfl

/-- Two ascending lists of entries with the same lookups start with the same name: the name at
the front of one is in the other, so it is not below the name at the front there. -/
theorem not_lt_of_find?_eq {first second : String × α} {others : List (String × α)}
    (ascending : (second :: others).Pairwise fun first second => first.1 < second.1)
    (found : find? first.1 (second :: others) = some first.2) : ¬ first.1 < second.1 := by
  intro less
  rcases List.mem_cons.mp (mem_of_find? found) with here | later
  · rw [← here] at less
    exact String.lt_irrefl _ less
  · exact String.lt_asymm less ((List.pairwise_cons.mp ascending).1 _ later)

/-- **Ascending entries are told by their lookups.** The induction goes along both lists, which
start with the same name. -/
theorem eq_of_find?_eq {first second : List (String × α)}
    (firstAscending : first.Pairwise fun first second => first.1 < second.1)
    (secondAscending : second.Pairwise fun first second => first.1 < second.1)
    (same : ∀ query, find? query first = find? query second) : first = second := by
  induction first generalizing second with
  | nil =>
      cases second with
      | nil => rfl
      | cons entry others =>
          have absent := same entry.1
          rw [find?_cons, if_pos rfl] at absent
          cases absent
  | cons entry entries ih =>
      cases second with
      | nil =>
          have absent := same entry.1
          rw [find?_cons, if_pos rfl] at absent
          cases absent
      | cons other others =>
          have here := same entry.1
          have there := same other.1
          rw [find?_cons, if_pos rfl] at here
          rw [find?_cons other.1 other, if_pos rfl] at there
          -- Each of the two names is found in the other list, so neither is less than the other.
          have names : entry.1 = other.1 := by
            by_contra different
            exact not_lt_of_find?_eq firstAscending there (Std.lt_of_le_of_ne
              (Std.not_lt.mp (not_lt_of_find?_eq secondAscending here.symm)) (Ne.symm different))
          have values : entry.2 = other.2 := by
            rw [names, find?_cons, if_pos rfl] at here
            exact Option.some.inj here
          obtain ⟨firstLater, firstAscending⟩ := List.pairwise_cons.mp firstAscending
          obtain ⟨secondLater, secondAscending⟩ := List.pairwise_cons.mp secondAscending
          rw [Prod.ext names values, ih firstAscending secondAscending]
          intro query
          by_cases isName : entry.1 = query
          · rw [find?_eq_none fun later member =>
                isName ▸ (Std.ne_of_lt (firstLater later member)).symm,
              find?_eq_none fun later member =>
                isName ▸ names ▸ (Std.ne_of_lt (secondLater later member)).symm]
          · have rest := same query
            rwa [find?_cons, find?_cons, if_neg isName, if_neg (names ▸ isName)] at rest

/-- **Maps with the same lookups are equal.** -/
theorem ext_get? {first second : NameMap α} (same : ∀ query, first.get? query = second.get? query) :
    first = second := by
  obtain ⟨entries, ascending⟩ := first
  obtain ⟨others, otherAscending⟩ := second
  obtain rfl := eq_of_find?_eq ascending otherAscending same
  rfl

/-- The order in which distinct names get their values does not matter. -/
theorem insert_comm (map : NameMap α) {first second : String} (different : first ≠ second)
    (value other : α) :
    (map.insert first value).insert second other =
      (map.insert second other).insert first value := by
  apply ext_get?
  intro query
  rw [get?_insert, get?_insert, get?_insert, get?_insert]
  by_cases isFirst : first = query
  · simp only [isFirst, isFirst ▸ different.symm, ↓reduceIte]
  · simp only [isFirst, ↓reduceIte]

end MiniVerilog.NameMap
