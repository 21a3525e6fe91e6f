import Mathlib.Data.List.Nodup
import MiniVerilog.Proofs.NameMap
import MiniVerilog.Regression.Registry

/-! # Suites partition the cases

Cases are registered by any sequence of calls, of which some are refused. Whatever is called, each
case stands in one suite and once there, and a suite lists what was registered in it; and a call is
refused exactly if the id of its case stands in a suite, and then changes nothing
(`MiniVerilog.Regression.Registry.ofCalls_partitions`).
-/

namespace MiniVerilog.Regression

/-- Going through the groups of items by their keys meets every item once. -/
theorem perm_flatMap_filter {α κ : Type} [DecidableEq κ] (key : α → κ) {keys : List κ}
    (distinct : keys.Nodup) {items : List α} (covered : ∀ item ∈ items, key item ∈ keys) :
    (keys.flatMap fun group => items.filter fun item => key item = group).Perm items := by
  induction keys generalizing items with
  | nil =>
      rw [List.eq_nil_iff_forall_not_mem.mpr fun item member =>
        List.not_mem_nil (covered item member)]
      rfl
  | cons first keys ih =>
      obtain ⟨fresh, distinct⟩ := List.nodup_cons.mp distinct
      have others : ∀ item ∈ items.filter fun item => !decide (key item = first),
          key item ∈ keys := by
        intro item member
        obtain ⟨member, different⟩ := List.mem_filter.mp member
        rw [Bool.not_eq_true', decide_eq_false_iff_not] at different
        exact (List.mem_cons.mp (covered item member)).resolve_left different
      have rest : (keys.flatMap fun group => items.filter fun item => key item = group) =
          keys.flatMap fun group => (items.filter fun item => !decide (key item = first)).filter
            fun item => key item = group := by
        refine List.flatMap_congr fun group member => ?_
        have different : first ≠ group := fun same => fresh (same ▸ member)
        rw [List.filter_filter]
        refine List.filter_congr fun item _ => ?_
        by_cases same : key item = group
        · simp only [same, different.symm, decide_true, decide_false, Bool.not_false, Bool.and_true]
        · simp only [same, decide_false, Bool.false_and]
      rw [List.flatMap_cons, rest]
      exact ((ih distinct others).append_left _).trans (List.filter_append_perm _ items)

/-- A call that registers a case in a suite. -/
structure Registration where
  suite : String
  case : Case

namespace Registry

/-- What a call answers, and the registry after it. -/
def call (registry : Registry) (registration : Registration) :
    Except RegistryError Unit × Registry :=
  (enter registration.suite registration.case).run.run registry

/-- The registry after calls on a new one. -/
def ofCalls (calls : List Registration) : Registry :=
  calls.foldl (fun registry registration => (registry.call registration).2) {}

/-- The calls that are not refused when they are made one after another. -/
def accepted (registry : Registry) : List Registration → List Registration
  | [] => []
  | registration :: calls =>
    match registry.call registration with
    | (.ok (), next) => registration :: accepted next calls
    | (.error _, next) => accepted next calls

/-- The cases that calls register in a suite. -/
def casesOf (calls : List Registration) (suite : String) : List Case :=
  (calls.filter fun registration => registration.suite = suite).map (·.case)

/-- The suites of a registry partition its cases: no id stands in two suites or twice in one, no
suite is empty or lists an id that is not known, and going through all suites meets each stored case
once. -/
structure Partitions (registry : Registry) : Prop where
  once : ∀ id, registry.cases.contains id = true → ∃ suite ids,
    registry.suites.get? suite = some ids ∧ ids.count id = 1 ∧
      ∀ other others, registry.suites.get? other = some others → id ∈ others → other = suite
  known : ∀ suite ids, registry.suites.get? suite = some ids →
    ∀ id ∈ ids, registry.cases.contains id = true
  nonempty : ∀ suite ids, registry.suites.get? suite = some ids → ids ≠ []
  perm : registry.all.Perm (registry.cases.entries.map Prod.snd)
  length : registry.all.length = registry.size

/-- The cases of a registry are those that calls registered: each is found by its id, and a suite
lists its own in the order of the calls. There is no other suite. -/
structure Lists (registry : Registry) (calls : List Registration) : Prop where
  get? : ∀ id, registry.get? id =
    (calls.find? fun registration => registration.case.id = id).map (·.case)
  suite : ∀ name, registry.suite name =
    if casesOf calls name = [] then .error (.unknownSuite name) else .ok (casesOf calls name)
  suiteNames : ∀ name, name ∈ registry.suiteNames ↔ casesOf calls name ≠ []

/-- A call is refused exactly if the id of its case stands in a suite. It is refused for its id, and
the registry is then as it was. -/
structure Decides (registry : Registry) (registration : Registration) : Prop where
  refused : (∃ reason, (registry.call registration).1 = .error reason) ↔
    ∃ suite ids, registry.suites.get? suite = some ids ∧ registration.case.id ∈ ids
  unchanged : ∀ reason, (registry.call registration).1 = .error reason →
    reason = .duplicateCase registration.case.id ∧ (registry.call registration).2 = registry

/-- The maps of a registry agree with the calls that made it, whose ids are distinct. -/
structure Holds (registry : Registry) (calls : List Registration) : Prop where
  distinct : (calls.map (·.case.id)).Nodup
  cases : ∀ id, registry.cases.get? id =
    (calls.find? fun registration => registration.case.id = id).map (·.case)
  suites : ∀ name, registry.suites.get? name =
    if casesOf calls name = [] then none else some ((casesOf calls name).map Case.id)

/-- A call is refused if the id is known, and otherwise lists the id in the suite and stores the
case. -/
theorem call_eq (registry : Registry) (registration : Registration) :
    registry.call registration =
      if registry.cases.contains registration.case.id then
        (.error (.duplicateCase registration.case.id), registry)
      else
        (.ok (),
          (registry.list registration.suite registration.case.id).store registration.case) := by
  change (ite _ _ _ : ExceptT RegistryError (StateM Registry) Unit).run.run registry = _
  split <;> rfl

section Holds

variable {registry : Registry} {calls : List Registration}

theorem casesOf_append (calls others : List Registration) (suite : String) :
    casesOf (calls ++ others) suite = casesOf calls suite ++ casesOf others suite := by
  rw [casesOf, List.filter_append, List.map_append]
  rfl

theorem Holds.new : Holds {} [] :=
  ⟨List.nodup_nil, fun _ => rfl, fun _ => rfl⟩

/-- A registry knows the ids of the calls that made it. -/
theorem Holds.contains_iff (holds : registry.Holds calls) {id : String} :
    registry.cases.contains id = true ↔ ∃ registration ∈ calls, registration.case.id = id := by
  rw [NameMap.contains_eq_isSome, holds.cases, Option.isSome_map, List.isSome_find?,
    List.any_eq_true]
  simp only [decide_eq_true_eq]

/-- A call whose id is new joins the calls. -/
theorem Holds.enter (holds : registry.Holds calls) {registration : Registration}
    (fresh : ¬ registry.cases.contains registration.case.id = true) :
    ((registry.list registration.suite registration.case.id).store registration.case).Holds
      (calls ++ [registration]) := by
  have unused : ∀ other ∈ calls, other.case.id ≠ registration.case.id :=
    fun other member same => fresh (holds.contains_iff.mpr ⟨other, member, same⟩)
  constructor
  case distinct =>
    rw [List.map_append, List.nodup_append]
    refine ⟨holds.distinct, List.pairwise_singleton _ _, fun id there other here => ?_⟩
    obtain ⟨earlier, member, rfl⟩ := List.mem_map.mp there
    rw [List.mem_singleton.mp here]
    exact unused earlier member
  case cases =>
    intro id
    rw [store, NameMap.get?_insert, List.find?_append, list, holds.cases]
    by_cases same : registration.case.id = id
    · subst same
      have none : calls.find? (fun other => other.case.id = registration.case.id) = none :=
        List.find?_eq_none.mpr fun other member found =>
          unused other member (of_decide_eq_true found)
      simp [none]
    · simp [same]
  case suites =>
    intro name
    rw [store, list, NameMap.get?_insert, casesOf_append]
    by_cases same : registration.suite = name
    · subst same
      have here : casesOf [registration] registration.suite = [registration.case] := by
        simp [casesOf]
      rw [if_pos rfl, if_neg (here ▸ List.concat_ne_nil _ _), holds.suites, here, List.map_append]
      split
      · rename_i none
        rw [none]
        rfl
      · rfl
    · have elsewhere : casesOf [registration] name = [] := by simp [casesOf, same]
      rw [if_neg same, elsewhere, List.append_nil, holds.suites]

/-- **Calls keep the registry in agreement with those that were accepted**, by induction on the
calls. -/
theorem Holds.foldl (holds : registry.Holds calls) (later : List Registration) :
    (later.foldl (fun registry registration => (registry.call registration).2) registry).Holds
      (calls ++ registry.accepted later) := by
  induction later generalizing registry calls with
  | nil =>
      rw [accepted, List.append_nil]
      exact holds
  | cons registration later ih =>
      rw [List.foldl_cons, accepted, call_eq]
      by_cases taken : registry.cases.contains registration.case.id = true
      · rw [if_pos taken]
        exact ih holds
      · rw [if_neg taken]
        have further := ih (holds.enter taken)
        rwa [List.append_assoc] at further

theorem mem_casesOf {suite : String} {case : Case} :
    case ∈ casesOf calls suite ↔ ∃ registration ∈ calls,
      registration.suite = suite ∧ registration.case = case := by
  simp only [casesOf, List.mem_map, List.mem_filter, decide_eq_true_eq, and_assoc]

theorem nodup_casesOf (distinct : (calls.map (·.case.id)).Nodup) (suite : String) :
    ((casesOf calls suite).map Case.id).Nodup := by
  rw [casesOf, List.map_map]
  exact distinct.sublist (List.filter_sublist.map _)

/-- The ids that a suite lists are those of its cases. -/
theorem Holds.get?_suites_iff (holds : registry.Holds calls) {suite : String} {ids : List String} :
    registry.suites.get? suite = some ids ↔
      casesOf calls suite ≠ [] ∧ (casesOf calls suite).map Case.id = ids := by
  rw [holds.suites]
  by_cases none : casesOf calls suite = []
  · simp only [none, ↓reduceIte, reduceCtorEq, ne_eq, not_true_eq_false, false_and]
  · simp only [none, ↓reduceIte, Option.some_inj, ne_eq, not_false_eq_true, true_and]

/-- A registry has the suites in which cases were registered. -/
theorem Holds.mem_names (holds : registry.Holds calls) {suite : String} :
    suite ∈ registry.suites.names ↔ casesOf calls suite ≠ [] := by
  rw [NameMap.mem_names, NameMap.contains_eq_isSome, holds.suites]
  by_cases none : casesOf calls suite = []
  · simp only [none, ↓reduceIte, Option.isSome_none, Bool.false_eq_true, ne_eq, not_true_eq_false]
  · simp only [none, ↓reduceIte, Option.isSome_some, ne_eq, not_false_eq_true]

/-- A registered case is found by its id. -/
theorem Holds.get?_id (holds : registry.Holds calls) {registration : Registration}
    (member : registration ∈ calls) :
    registry.get? registration.case.id = some registration.case := by
  rw [Registry.get?, holds.cases]
  cases found : calls.find? (fun other => other.case.id = registration.case.id) with
  | none => exact absurd (decide_eq_true rfl) (List.find?_eq_none.mp found _ member)
  | some other =>
      have same := List.find?_some found
      rw [decide_eq_true_eq] at same
      rw [List.inj_on_of_nodup_map holds.distinct (List.mem_of_find?_eq_some found) member same]
      rfl

/-- The ids of a suite lead back to its cases. -/
theorem Holds.filterMap_get? (holds : registry.Holds calls) (suite : String) :
    ((casesOf calls suite).map Case.id).filterMap registry.get? = casesOf calls suite := by
  have found : ∀ case ∈ casesOf calls suite, (registry.get? ∘ Case.id) case = some case := by
    intro case listed
    obtain ⟨registration, member, -, rfl⟩ := mem_casesOf.mp listed
    exact holds.get?_id member
  rw [List.filterMap_map, List.filterMap_congr found, List.filterMap_some]

/-- Going through all suites meets every registered case once. -/
theorem Holds.all_perm (holds : registry.Holds calls) :
    registry.all.Perm (calls.map (·.case)) := by
  have suites : registry.all = registry.suites.names.flatMap (casesOf calls) := by
    rw [all, NameMap.names, List.flatMap_map]
    refine List.flatMap_congr fun entry member => ?_
    obtain ⟨-, ids⟩ := holds.get?_suites_iff.mp (NameMap.get?_eq_some_iff.mpr member)
    rw [← ids, holds.filterMap_get?]
  have covered : ∀ registration ∈ calls, registration.suite ∈ registry.suites.names := by
    intro registration member
    rw [holds.mem_names]
    exact List.ne_nil_of_mem (mem_casesOf.mpr ⟨registration, member, rfl, rfl⟩)
  have perm := (perm_flatMap_filter Registration.suite registry.suites.nodup_names covered).map
    Registration.case
  rw [List.map_flatMap] at perm
  rw [suites]
  exact perm

/-- Each registered case is stored once, under its id. -/
theorem Holds.entries_perm (holds : registry.Holds calls) :
    registry.cases.entries.Perm (calls.map fun registration =>
      (registration.case.id, registration.case)) := by
  have stored : registry.cases.entries.Nodup := List.Nodup.of_map _ registry.cases.nodup_names
  have registered : (calls.map fun registration =>
      (registration.case.id, registration.case)).Nodup :=
    List.Nodup.of_map Prod.fst (by rw [List.map_map]; exact holds.distinct)
  rw [List.perm_ext_iff_of_nodup stored registered]
  rintro ⟨id, case⟩
  rw [← NameMap.get?_eq_some_iff, List.mem_map]
  constructor
  · intro found
    rw [holds.cases] at found
    obtain ⟨registration, here, rfl⟩ := Option.map_eq_some_iff.mp found
    have same := List.find?_some here
    rw [decide_eq_true_eq] at same
    exact ⟨registration, List.mem_of_find?_eq_some here, Prod.ext same rfl⟩
  · rintro ⟨registration, member, same⟩
    cases same
    exact holds.get?_id member

/-- **The suites partition the cases**: each id was registered in one call, and so stands in the
suite of that call only. -/
theorem Holds.partitions (holds : registry.Holds calls) : registry.Partitions := by
  constructor
  case once =>
    intro id stored
    obtain ⟨registration, member, rfl⟩ := holds.contains_iff.mp stored
    have listed : registration.case ∈ casesOf calls registration.suite :=
      mem_casesOf.mpr ⟨registration, member, rfl, rfl⟩
    refine ⟨registration.suite, _, holds.get?_suites_iff.mpr ⟨List.ne_nil_of_mem listed, rfl⟩,
      List.count_eq_one_of_mem (nodup_casesOf holds.distinct _) (List.mem_map_of_mem listed),
      fun other others found there => ?_⟩
    -- Two suites with the id come from two calls with it, and the ids of the calls are distinct.
    obtain ⟨-, rfl⟩ := holds.get?_suites_iff.mp found
    obtain ⟨case, twinListed, same⟩ := List.mem_map.mp there
    obtain ⟨twin, twinMember, rfl, rfl⟩ := mem_casesOf.mp twinListed
    rw [List.inj_on_of_nodup_map holds.distinct twinMember member same]
  case known =>
    intro suite ids found id there
    obtain ⟨-, rfl⟩ := holds.get?_suites_iff.mp found
    obtain ⟨case, listed, rfl⟩ := List.mem_map.mp there
    obtain ⟨registration, member, -, rfl⟩ := mem_casesOf.mp listed
    exact holds.contains_iff.mpr ⟨registration, member, rfl⟩
  case nonempty =>
    intro suite ids found none
    obtain ⟨listed, rfl⟩ := holds.get?_suites_iff.mp found
    exact listed (List.map_eq_nil_iff.mp none)
  case perm =>
    have stored := holds.entries_perm.map Prod.snd
    rw [List.map_map] at stored
    exact holds.all_perm.trans stored.symm
  case length =>
    rw [holds.all_perm.length_eq, size, NameMap.size, holds.entries_perm.length_eq,
      List.length_map, List.length_map]

/-- **A registry lists what calls registered.** -/
theorem Holds.lists (holds : registry.Holds calls) : registry.Lists calls := by
  constructor
  case get? => exact holds.cases
  case suite =>
    intro name
    rw [suite, holds.suites]
    by_cases none : casesOf calls name = []
    · rw [if_pos none, if_pos none]
    · rw [if_neg none, if_neg none]
      exact congrArg Except.ok (holds.filterMap_get? name)
  case suiteNames =>
    intro name
    rw [suiteNames, holds.mem_names]

/-- **A call is refused exactly for an id that stands in a suite**, since those are the ids that are
stored. -/
theorem Holds.decides (holds : registry.Holds calls) (registration : Registration) :
    registry.Decides registration := by
  constructor
  case refused =>
    rw [call_eq]
    constructor
    · rintro ⟨reason, refused⟩
      split at refused
      · rename_i taken
        obtain ⟨earlier, member, same⟩ := holds.contains_iff.mp taken
        have listed := mem_casesOf.mpr ⟨earlier, member, rfl, rfl⟩
        exact ⟨earlier.suite, _,
          holds.get?_suites_iff.mpr ⟨List.ne_nil_of_mem listed, rfl⟩,
          same ▸ List.mem_map_of_mem listed⟩
      · cases refused
    · rintro ⟨suite, ids, found, there⟩
      rw [if_pos (holds.partitions.known suite ids found _ there)]
      exact ⟨_, rfl⟩
  case unchanged =>
    intro reason refused
    rw [call_eq] at refused ⊢
    split at refused
    · rename_i taken
      rw [if_pos taken]
      exact ⟨(Except.error.inj refused).symm, rfl⟩
    · cases refused

end Holds

/-- **Suites partition the cases** that are registered by any calls on a new registry. They list the
cases that were accepted, and a call that is refused changes nothing. -/
theorem ofCalls_partitions (calls : List Registration) (registration : Registration) :
    (ofCalls calls).Partitions ∧ (ofCalls calls).Lists (accepted {} calls) ∧
      (ofCalls calls).Decides registration := by
  have holds : (ofCalls calls).Holds (accepted {} calls) := Holds.new.foldl calls
  exact ⟨holds.partitions, holds.lists, holds.decides registration⟩

end Registry

end MiniVerilog.Regression
