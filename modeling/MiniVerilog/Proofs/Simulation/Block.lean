import MiniVerilog.Proofs.NameMap
import MiniVerilog.Simulation.Block

/-! # What running a body keeps

Running a body writes only names that the body assigns, so what these writes keep is kept by the
run (`MiniVerilog.StatementTree.runBody_keeps`). The writes it adds go to the names
(`MiniVerilog.StatementTree.exists_writes_runBody`), and wherever the run comes, the blocking
writes hide no other name (`MiniVerilog.StatementTree.Meets.lookup_eq`).
-/

namespace MiniVerilog

/-- Writes of these names keep a property. -/
def Effects.Keeps (motive : Effects → Prop) (names : List String) : Prop :=
  ∀ effects blocking target value, target ∈ names → motive effects →
    motive (effects.write blocking target value)

theorem Effects.Keeps.mono {motive : Effects → Prop} {names others : List String}
    (keeps : Keeps motive others) (subset : names ⊆ others) : Keeps motive names :=
  fun effects blocking target value member held =>
    keeps effects blocking target value (subset member) held

/-- Writes of other names keep the blocking write of a name. -/
theorem Effects.keeps_local {names : List String} {name : String} (unassigned : name ∉ names)
    (value : Option Value) : Keeps (fun effects => effects.locals.get? name = value) names := by
  intro effects blocking target written assigned held
  have other : target ≠ name := fun same => unassigned (same ▸ assigned)
  unfold write
  cases blocking with
  | false => exact held
  | true =>
      rw [if_pos rfl, NameMap.get?_insert, if_neg other]
      exact held

namespace StatementTree

variable (mask : String → Value → Value) (outer : String → Option Value)

section Keeps

variable {motive : Effects → Prop}

open Effects (Keeps)

mutual

/-- A statement keeps what the writes of the names it assigns keep. -/
theorem run_keeps {effects : Effects} (tree : StatementTree) (keeps : Keeps motive tree.targets)
    (held : motive effects) : motive (run mask outer effects tree) := by
  cases tree with
  | missing => exact held
  | assign target expression blocking line =>
      exact keeps effects blocking target _ List.mem_cons_self held
  | branch condition thenBody elseBody =>
      rw [run]
      split
      · exact runBody_keeps thenBody (keeps.mono (List.subset_append_left _ _)) held
      · exact runBody_keeps elseBody (keeps.mono (List.subset_append_right _ _)) held
  | select subject arms otherwise =>
      rw [run]
      split
      · rename_i taken ran
        exact runArms_keeps _ arms (keeps.mono (List.subset_append_left _ _)) held ran
      · exact runBody_keeps otherwise (keeps.mono (List.subset_append_right _ _)) held

/-- **A body keeps what the writes of the names it assigns keep.** -/
theorem runBody_keeps {effects : Effects} (body : List StatementTree)
    (keeps : Keeps motive (targetsOfBody body)) (held : motive effects) :
    motive (runBody mask outer effects body) := by
  cases body with
  | nil => exact held
  | cons tree body =>
      exact runBody_keeps body (keeps.mono (List.subset_append_right _ _))
        (run_keeps tree (keeps.mono (List.subset_append_left _ _)) held)

/-- So does the arm that is taken. -/
theorem runArms_keeps {effects : Effects} (subject : Value)
    (arms : List (List String × List StatementTree)) (keeps : Keeps motive (targetsOfArms arms))
    (held : motive effects) {taken : Effects}
    (ran : runArms mask outer effects subject arms = some taken) : motive taken := by
  cases arms with
  | nil => cases ran
  | cons arm arms =>
      obtain ⟨labels, body⟩ := arm
      rw [runArms] at ran
      split at ran
      · cases ran
        exact runBody_keeps body (keeps.mono (List.subset_append_left _ _)) held
      · exact runArms_keeps subject arms (keeps.mono (List.subset_append_right _ _)) held ran

end

end Keeps

/-- **A body adds writes of the names it assigns.** -/
theorem exists_writes_runBody (effects : Effects) (body : List StatementTree) :
    ∃ writes, (runBody mask outer effects body).writes = effects.writes ++ writes ∧
      ∀ write ∈ writes, write.1 ∈ targetsOfBody body := by
  apply runBody_keeps (motive := fun later => ∃ writes, later.writes = effects.writes ++ writes ∧
    ∀ write ∈ writes, write.1 ∈ targetsOfBody body)
  · rintro later blocking target value assigned ⟨writes, added, known⟩
    refine ⟨writes ++ [(target, value)], ?_, ?_⟩
    · rw [Effects.write, added, List.append_assoc]
    · exact List.forall_mem_append.mpr ⟨known, List.forall_mem_singleton.mpr assigned⟩
  · exact ⟨[], (List.append_nil _).symm, List.forall_mem_nil _⟩

theorem runBody_writes (body : List StatementTree) :
    ∀ write ∈ (runBody mask outer {} body).writes, write.1 ∈ targetsOfBody body := by
  obtain ⟨writes, added, known⟩ := exists_writes_runBody mask outer {} body
  rwa [added]

/-- Running a body from some effects comes to a statement with other effects, when the branches are
taken that lead there. -/
inductive Meets : Effects → List StatementTree → Effects → StatementTree → Prop where
  | here (effects : Effects) (tree : StatementTree) (body : List StatementTree) :
      Meets effects (tree :: body) effects tree
  | later {effects met : Effects} {tree found : StatementTree} {body : List StatementTree}
      (meets : Meets (run mask outer effects tree) body met found) :
      Meets effects (tree :: body) met found
  | thenBody {effects met : Effects} {found : StatementTree} {condition : String}
      {thenBody elseBody body : List StatementTree} (meets : Meets effects thenBody met found) :
      Meets effects (branch condition thenBody elseBody :: body) met found
  | elseBody {effects met : Effects} {found : StatementTree} {condition : String}
      {thenBody elseBody body : List StatementTree} (meets : Meets effects elseBody met found) :
      Meets effects (branch condition thenBody elseBody :: body) met found
  | arm {effects met : Effects} {found : StatementTree} {subject : String}
      {arms : List (List String × List StatementTree)} {otherwise body : List StatementTree}
      {taken : List String × List StatementTree} (member : taken ∈ arms)
      (meets : Meets effects taken.2 met found) :
      Meets effects (select subject arms otherwise :: body) met found
  | otherwise {effects met : Effects} {found : StatementTree} {subject : String}
      {arms : List (List String × List StatementTree)} {otherwise body : List StatementTree}
      (meets : Meets effects otherwise met found) :
      Meets effects (select subject arms otherwise :: body) met found

variable {mask outer}

/-- The targets of one alternative are among those of all. -/
theorem targetsOfBody_subset_of_mem {arms : List (List String × List StatementTree)}
    {taken : List String × List StatementTree} (member : taken ∈ arms) :
    targetsOfBody taken.2 ⊆ targetsOfArms arms := by
  induction arms with
  | nil => cases member
  | cons arm arms ih =>
      obtain ⟨labels, body⟩ := arm
      rcases List.mem_cons.mp member with rfl | others
      · exact List.subset_append_left _ _
      · exact List.Subset.trans (ih others) (List.subset_append_right _ _)

/-- A run keeps, wherever it comes, what the writes of the names that are assigned keep. -/
theorem Meets.keeps {motive : Effects → Prop} {effects met : Effects} {found : StatementTree}
    {body : List StatementTree} (meets : Meets mask outer effects body met found)
    (keeps : Effects.Keeps motive (targetsOfBody body)) (held : motive effects) :
    motive met := by
  induction meets with
  | here => exact held
  | later _ ih =>
      exact ih (keeps.mono (List.subset_append_right _ _))
        (run_keeps mask outer _ (keeps.mono (List.subset_append_left _ _)) held)
  | thenBody _ ih =>
      refine ih (keeps.mono ?_) held
      exact List.subset_append_of_subset_left _ (List.subset_append_left _ _)
  | elseBody _ ih =>
      refine ih (keeps.mono ?_) held
      exact List.subset_append_of_subset_left _ (List.subset_append_right _ _)
  | arm member _ ih =>
      refine ih (keeps.mono ?_) held
      exact List.subset_append_of_subset_left _
        (List.subset_append_of_subset_left _ (targetsOfBody_subset_of_mem member))
  | otherwise _ ih =>
      refine ih (keeps.mono ?_) held
      exact List.subset_append_of_subset_left _ (List.subset_append_right _ _)

/-- **Blocking writes hide no name that the body does not assign.** -/
theorem Meets.lookup_eq {met : Effects} {found : StatementTree} {body : List StatementTree}
    (meets : Meets mask outer {} body met found) {name : String}
    (unassigned : name ∉ targetsOfBody body) : met.lookup outer name = outer name := by
  have hidden : met.locals.get? name = none :=
    meets.keeps (Effects.keeps_local unassigned none) rfl
  rw [Effects.lookup, hidden]
  rfl

end StatementTree

end MiniVerilog
