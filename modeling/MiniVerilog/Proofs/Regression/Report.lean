import Mathlib.Algebra.GroupWithZero.Nat
import Mathlib.Data.List.Induction
import MiniVerilog.Proofs.Regression.Registry
import MiniVerilog.Regression.Report

/-! # Reports add up

The counts of a report are made in two ways: all results are counted at once, and each is counted
for its category as it comes. Both agree, and no category is left out
(`MiniVerilog.Regression.Report.ofResults_addsUp`).
-/

namespace MiniVerilog.Regression

namespace Tally

/-- Counting one more result is counting all of them. -/
theorem ofResults_concat (results : List CaseResult) (result : CaseResult) :
    ofResults (results ++ [result]) = (ofResults results).count result := by
  have most : results.countP (·.passed) ≤ results.length := List.countP_le_length
  cases passed : result.passed
  · simp [ofResults, count, passed, Nat.sub_add_comm most]
  · simp [ofResults, count, passed]

/-- The failures of a report are the results that did not pass. -/
theorem failed_ofResults (results : List CaseResult) :
    (ofResults results).failed = results.countP fun result => !result.passed := by
  have parts := List.length_eq_countP_add_countP (fun result => result.passed) (l := results)
  simp only [Bool.not_eq_true, Bool.decide_eq_false] at parts
  rw [ofResults, parts, Nat.add_sub_cancel_left]

end Tally

section Categories

variable {tallies : List (Category × Tally)} {result : CaseResult}

theorem Category.mem_all (category : Category) : category ∈ all := by
  cases category <;> decide

theorem Category.place_inj {first second : Category} (same : first.place = second.place) :
    first = second :=
  (List.idxOf_inj first.mem_all).mp same

namespace Report

/-- The categories stand in their order, each at most once. -/
def Ascending (tallies : List (Category × Tally)) : Prop :=
  tallies.Pairwise fun first second => first.1.place < second.1.place

/-- Counting a result adds no category but its own. -/
theorem mem_countFor {entry : Category × Tally} (member : entry ∈ countFor result tallies) :
    entry.1 = result.category ∨ entry.1 ∈ tallies.map Prod.fst := by
  fun_induction countFor result tallies with
  | case1 => exact .inl (List.mem_singleton.mp member ▸ rfl)
  | case2 tally rest =>
      rcases List.mem_cons.mp member with rfl | later
      · exact .inl rfl
      · exact .inr (List.mem_cons_of_mem _ (List.mem_map_of_mem later))
  | case3 category tally rest =>
      rcases List.mem_cons.mp member with rfl | later
      · exact .inl rfl
      · exact .inr (List.mem_map_of_mem later)
  | case4 category tally rest _ _ ih =>
      rcases List.mem_cons.mp member with rfl | later
      · exact .inr List.mem_cons_self
      · exact (ih later).imp_right (List.mem_cons_of_mem _)

/-- **Counting a result keeps the order of the categories.** The induction goes to the place of its
category, which is there or is put in. -/
theorem Ascending.countFor (ascending : Ascending tallies) (result : CaseResult) :
    Ascending (countFor result tallies) := by
  fun_induction Report.countFor result tallies with
  | case1 => exact List.pairwise_singleton _ _
  | case2 tally rest => exact List.pairwise_cons.mpr (List.pairwise_cons.mp ascending)
  | case3 category tally rest different before =>
      refine List.pairwise_cons.mpr ⟨List.forall_mem_cons.mpr ⟨before, fun entry member => ?_⟩,
        ascending⟩
      exact before.trans ((List.pairwise_cons.mp ascending).1 entry member)
  | case4 category tally rest different notBefore ih =>
      obtain ⟨later, ascending⟩ := List.pairwise_cons.mp ascending
      refine List.pairwise_cons.mpr ⟨fun entry member => ?_, ih ascending⟩
      rcases mem_countFor member with here | there
      · have other : category.place ≠ result.category.place :=
          fun same => different (Category.place_inj same).symm
        rw [here]
        exact Nat.lt_of_le_of_ne (Nat.le_of_not_lt notBefore) other
      · obtain ⟨other, member, same⟩ := List.mem_map.mp there
        rw [← same]
        exact later other member

/-- The first entry is found under its category. -/
theorem lookup_cons (category : Category) (entry : Category × Tally)
    (tallies : List (Category × Tally)) :
    (entry :: tallies).lookup category =
      if category = entry.1 then some entry.2 else tallies.lookup category := by
  rw [List.lookup_cons]
  by_cases same : category = entry.1
  · rw [beq_iff_eq.mpr same, if_pos same]
  · rw [beq_false_of_ne same, if_neg same]

/-- A category that stands before all others has no count. -/
theorem lookup_eq_none {category : Category}
    (before : ∀ entry ∈ tallies, category.place < entry.1.place) :
    tallies.lookup category = none := by
  refine List.lookup_eq_none_iff.mpr fun entry member => bne_iff_ne.mpr fun same => ?_
  exact (before entry member).ne (congrArg Category.place same)

/-- Only the count of the result's category changes. -/
theorem lookup_countFor (ascending : Ascending tallies) (result : CaseResult)
    (category : Category) :
    (countFor result tallies).lookup category =
      if category = result.category then
        some (((tallies.lookup category).getD {}).count result)
      else tallies.lookup category := by
  fun_induction countFor result tallies with
  | case1 => exact lookup_cons category _ []
  | case2 tally rest =>
      rw [lookup_cons, lookup_cons]
      by_cases same : category = result.category
      · simp only [same, ↓reduceIte, Option.getD_some]
      · simp only [same, ↓reduceIte]
  | case3 other tally rest different before =>
      have none : ((other, tally) :: rest).lookup result.category = none :=
        lookup_eq_none (List.forall_mem_cons.mpr ⟨before, fun entry member =>
          before.trans ((List.pairwise_cons.mp ascending).1 entry member)⟩)
      rw [lookup_cons]
      by_cases same : category = result.category
      · simp only [same, ↓reduceIte, none, Option.getD_none]
      · simp only [same, ↓reduceIte]
  | case4 other tally rest different notBefore ih =>
      rw [lookup_cons, lookup_cons, ih (List.pairwise_cons.mp ascending).2]
      by_cases same : category = result.category
      · simp only [same, different, ↓reduceIte]
      · simp only [same, ↓reduceIte]

/-- The results of a category. -/
def members (results : List CaseResult) (category : Category) : List CaseResult :=
  results.filter fun result => result.category = category

/-- A last result is the last one of its category. -/
theorem members_concat (results : List CaseResult) (result : CaseResult) (category : Category) :
    members (results ++ [result]) category =
      if category = result.category then members results category ++ [result]
      else members results category := by
  rw [members, List.filter_append, List.filter_singleton]
  by_cases same : category = result.category
  · rw [if_pos same, decide_eq_true same.symm]
    rfl
  · rw [if_neg same, decide_eq_false (Ne.symm same)]
    exact List.append_nil _

/-- The counts are those of the results of each category that has any. -/
structure Counts (results : List CaseResult) (tallies : List (Category × Tally)) : Prop where
  ascending : Ascending tallies
  lookup : ∀ category, tallies.lookup category =
    if members results category = [] then none
    else some (Tally.ofResults (members results category))

/-- **Counting a result keeps the counts those of the results.** -/
theorem Counts.countFor {results : List CaseResult} (counts : Counts results tallies)
    (result : CaseResult) : Counts (results ++ [result]) (countFor result tallies) where
  ascending := counts.ascending.countFor result
  lookup := fun category => by
    rw [lookup_countFor counts.ascending, counts.lookup, members_concat]
    by_cases same : category = result.category
    · rw [if_pos same, if_pos same, if_neg (List.concat_ne_nil _ _), Tally.ofResults_concat]
      split
      · rename_i none
        rw [none]
        rfl
      · rfl
    · rw [if_neg same, if_neg same]

/-- The counts of all results, by induction from the first one on. -/
theorem counts_categoryTallies (results : List CaseResult) :
    Counts results (categoryTallies results) := by
  induction results using List.reverseRecOn with
  | nil => exact ⟨.nil, fun _ => rfl⟩
  | append_singleton results result ih =>
      rw [categoryTallies, List.foldl_append]
      exact ih.countFor result

section Sums

variable {results : List CaseResult}

theorem Ascending.nodup (ascending : Ascending tallies) : (tallies.map Prod.fst).Nodup := by
  rw [List.nodup_iff_pairwise_ne, List.pairwise_map]
  exact ascending.imp fun before same => before.ne (congrArg Category.place same)

/-- Each entry is found under its category. -/
theorem Ascending.lookup_eq (ascending : Ascending tallies) {entry : Category × Tally}
    (member : entry ∈ tallies) : tallies.lookup entry.1 = some entry.2 := by
  induction tallies with
  | nil => cases member
  | cons first tallies ih =>
      obtain ⟨later, ascending⟩ := List.pairwise_cons.mp ascending
      rw [lookup_cons]
      rcases List.mem_cons.mp member with rfl | there
      · exact if_pos rfl
      · rw [if_neg fun same => (later entry there).ne (congrArg Category.place same.symm)]
        exact ih ascending there

/-- Exactly the categories that occur are counted. -/
theorem Counts.mem_iff (counts : Counts results tallies) {category : Category} :
    category ∈ tallies.map Prod.fst ↔ ∃ result ∈ results, result.category = category := by
  have counted : category ∈ tallies.map Prod.fst ↔ (tallies.lookup category).isSome := by
    rw [List.lookup_isSome_iff, List.mem_map]
    simp only [beq_iff_eq, @eq_comm _ category]
  have occurs : members results category ≠ [] ↔
      ∃ result ∈ results, result.category = category := by
    rw [members, ne_eq, List.filter_eq_nil_iff]
    simp only [decide_eq_true_eq, not_forall, Decidable.not_not, exists_prop]
  rw [counted, counts.lookup, ← occurs]
  split
  · rename_i none
    simp only [none, Option.isSome_none, Bool.false_eq_true, ne_eq, not_true_eq_false]
  · rename_i some
    simp only [some, Option.isSome_some, ne_eq, not_false_eq_true]

/-- A category has the numbers of its results. -/
theorem Counts.eq_ofResults (counts : Counts results tallies) {entry : Category × Tally}
    (member : entry ∈ tallies) : entry.2 = Tally.ofResults (members results entry.1) := by
  have held := counts.ascending.lookup_eq member
  rw [counts.lookup] at held
  split at held
  · cases held
  · exact (Option.some.inj held).symm

/-- What is counted for each category sums up to what is counted for all. -/
theorem Counts.sum_eq (counts : Counts results tallies) (part : Tally → Nat)
    (property : CaseResult → Bool)
    (parts : ∀ others, part (Tally.ofResults others) = others.countP property) :
    (tallies.map fun entry => part entry.2).sum = results.countP property := by
  have perm := perm_flatMap_filter CaseResult.category counts.ascending.nodup
    fun result member => counts.mem_iff.mpr ⟨result, member, rfl⟩
  rw [← perm.countP_eq, List.countP_flatMap, List.map_map]
  refine congrArg List.sum (List.map_congr_left fun entry member => ?_)
  rw [counts.eq_ofResults member, parts]
  rfl

end Sums

/-- The numbers of a report add up. The totals count all results, and each category that occurs has
the numbers of its own, which sum up to the totals; and the report is a success exactly if every
result passed. -/
structure AddsUp (report : Report) : Prop where
  total : report.tally.total = report.results.length
  parts : report.tally.total = report.tally.passed + report.tally.failed
  categories : ∀ category, category ∈ report.byCategory.map Prod.fst ↔
    ∃ result ∈ report.results, result.category = category
  distinct : (report.byCategory.map Prod.fst).Nodup
  own : ∀ entry ∈ report.byCategory, entry.2 = Tally.ofResults (members report.results entry.1)
  totals : (report.byCategory.map (·.2.total)).sum = report.tally.total
  passed : (report.byCategory.map (·.2.passed)).sum = report.tally.passed
  failed : (report.byCategory.map (·.2.failed)).sum = report.tally.failed
  success : report.isSuccess = true ↔ ∀ result ∈ report.results, result.passed = true

/-- **The numbers of a report add up.** Every result is counted in exactly one category, so the sums
over the categories are the totals. -/
theorem ofResults_addsUp (results : List CaseResult) (nanoseconds : Nat) :
    (ofResults results nanoseconds).AddsUp := by
  have counts := counts_categoryTallies results
  constructor
  case total => rfl
  case parts => exact (Nat.add_sub_cancel' List.countP_le_length).symm
  case categories => exact fun category => counts.mem_iff
  case distinct => exact counts.ascending.nodup
  case own => exact fun entry member => counts.eq_ofResults member
  case totals =>
    have all (others : List CaseResult) :
        (Tally.ofResults others).total = others.countP fun _ => true :=
      (congrFun List.countP_true others).symm
    exact (counts.sum_eq Tally.total _ all).trans (all results).symm
  case passed => exact counts.sum_eq Tally.passed (·.passed) fun _ => rfl
  case failed =>
    exact (counts.sum_eq Tally.failed (fun result => !result.passed) Tally.failed_ofResults).trans
      (Tally.failed_ofResults results).symm
  case success =>
    rw [isSuccess, beq_iff_eq]
    change (Tally.ofResults results).failed = 0 ↔ _
    rw [Tally.failed_ofResults, List.countP_eq_zero]
    simp only [Bool.not_eq_true', Bool.not_eq_false]
    rfl

end Report

end Categories

end MiniVerilog.Regression
