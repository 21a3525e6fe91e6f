import MiniVerilog.Module.Elaborate
import MiniVerilog.Proofs.Simulation.Staging
import MiniVerilog.Proofs.Statement.Walk

/-! # Blocking assignments make a sequential program

A body of blocking assignments only is a sequential program on a store of values
(`MiniVerilog.StatementTree.Performs`). A simulator has no such store: it lays the blocking writes
of the block over the values before the step and queues all writes, to stage them afterwards. What
becomes pending is nevertheless what the program leaves in its store
(`MiniVerilog.Simulator.runBlock_performs`). The relation that carries this through a body is
`MiniVerilog.Effects.Agrees`.
-/

namespace MiniVerilog

/-- The value of an expression over a store. A word is read in the store, or else as a
constant. -/
def NameMap.evaluate (constants : String → Option Value) (store : NameMap Value)
    (expression : String) : Value :=
  Expression.evaluate (fun name => (store.get? name).or (constants name)) expression

namespace StatementTree

section Performs

variable (mask : String → Value → Value) (constants : String → Option Value)

/-- From a store a program performs a body, which assigns names in their order, and ends in a
store. A choice takes the first body if its condition is not 0, and a case statement the first arm
with a label that has the value of the subject. -/
inductive Performs : NameMap Value → List StatementTree → List String → NameMap Value → Prop
  | done (store : NameMap Value) : Performs store [] [] store
  | missing {store last : NameMap Value} {body : List StatementTree} {written : List String}
      (rest : Performs store body written last) : Performs store (missing :: body) written last
  | assign {store last : NameMap Value} {target expression : String} {blocking : Bool} {line : Nat}
      {body : List StatementTree} {written : List String}
      (rest : Performs (store.insert target (mask target (store.evaluate constants expression)))
        body written last) :
      Performs store (assign target expression blocking line :: body) (target :: written) last
  | thenBody {store middle last : NameMap Value} {condition : String}
      {thenBody elseBody body : List StatementTree} {first written : List String}
      (holds : store.evaluate constants condition ≠ 0)
      (taken : Performs store thenBody first middle) (rest : Performs middle body written last) :
      Performs store (branch condition thenBody elseBody :: body) (first ++ written) last
  | elseBody {store middle last : NameMap Value} {condition : String}
      {thenBody elseBody body : List StatementTree} {first written : List String}
      (fails : store.evaluate constants condition = 0)
      (taken : Performs store elseBody first middle) (rest : Performs middle body written last) :
      Performs store (branch condition thenBody elseBody :: body) (first ++ written) last
  | arm {store middle last : NameMap Value} {subject : String}
      {arms : List (List String × List StatementTree)} {otherwise body : List StatementTree}
      {arm : List String × List StatementTree} {first written : List String}
      (matching : arms.find? (fun arm => ∃ label ∈ arm.1,
        store.evaluate constants label = store.evaluate constants subject) = some arm)
      (taken : Performs store arm.2 first middle) (rest : Performs middle body written last) :
      Performs store (select subject arms otherwise :: body) (first ++ written) last
  | otherwise {store middle last : NameMap Value} {subject : String}
      {arms : List (List String × List StatementTree)} {otherwise body : List StatementTree}
      {first written : List String}
      (matching : arms.find? (fun arm => ∃ label ∈ arm.1,
        store.evaluate constants label = store.evaluate constants subject) = none)
      (taken : Performs store otherwise first middle) (rest : Performs middle body written last) :
      Performs store (select subject arms otherwise :: body) (first ++ written) last

mutual

/-- A statement leads to the statements after it. -/
theorem exists_performs_statement (tree : StatementTree) (store : NameMap Value) :
    ∃ first middle, ∀ body written last, Performs mask constants middle body written last →
      Performs mask constants store (tree :: body) (first ++ written) last := by
  cases tree with
  | missing => exact ⟨[], store, fun _ _ _ rest => .missing rest⟩
  | assign target expression blocking line =>
      exact ⟨[target], _, fun _ _ _ rest => .assign rest⟩
  | branch condition thenBody elseBody =>
      by_cases fails : store.evaluate constants condition = 0
      · obtain ⟨first, middle, taken⟩ := exists_performs elseBody store
        exact ⟨first, middle, fun _ _ _ rest => .elseBody fails taken rest⟩
      · obtain ⟨first, middle, taken⟩ := exists_performs thenBody store
        exact ⟨first, middle, fun _ _ _ rest => .thenBody fails taken rest⟩
  | select subject arms otherwise =>
      cases matching : arms.find? fun arm => ∃ label ∈ arm.1,
          store.evaluate constants label = store.evaluate constants subject with
      | none =>
          obtain ⟨first, middle, taken⟩ := exists_performs otherwise store
          exact ⟨first, middle, fun _ _ _ rest => .otherwise matching taken rest⟩
      | some arm =>
          obtain ⟨first, middle, taken⟩ :=
            exists_performs_arm arms (List.mem_of_find?_eq_some matching) store
          exact ⟨first, middle, fun _ _ _ rest => .arm matching taken rest⟩

/-- **Every program ends.** -/
theorem exists_performs (body : List StatementTree) (store : NameMap Value) :
    ∃ written last, Performs mask constants store body written last := by
  cases body with
  | nil => exact ⟨[], store, .done store⟩
  | cons tree body =>
      obtain ⟨first, middle, leads⟩ := exists_performs_statement tree store
      obtain ⟨written, last, rest⟩ := exists_performs body middle
      exact ⟨first ++ written, last, leads body written last rest⟩

/-- So does the body of every arm. -/
theorem exists_performs_arm (arms : List (List String × List StatementTree))
    {arm : List String × List StatementTree} (member : arm ∈ arms) (store : NameMap Value) :
    ∃ written last, Performs mask constants store arm.2 written last := by
  cases arms with
  | nil => cases member
  | cons other arms =>
      obtain ⟨labels, body⟩ := other
      by_cases here : arm = (labels, body)
      · rw [here]
        exact exists_performs body store
      · exact exists_performs_arm arms (List.mem_of_ne_of_mem here member) store

end

end Performs

end StatementTree

/-- What a run has done agrees with a program that started from the values, has assigned the names
in this order and has come to the store: the overlay of blocking writes over the values is the
store, and the last write to a name is in the overlay. -/
structure Effects.Agrees (mask : String → Value → Value) (values store : NameMap Value)
    (written : List String) (effects : Effects) : Prop where
  store : ∀ name, store.get? name = (effects.locals.get? name).or (values.get? name)
  names : effects.writes.map Prod.fst = written
  last : ∀ name, (Simulator.lastWrite? name effects.writes).map (mask name) =
    effects.locals.get? name

namespace Effects.Agrees

variable {mask : String → Value → Value} {constants : String → Option Value}
  {values store : NameMap Value} {written : List String} {effects : Effects}

/-- At first nothing is written, and the store is the committed values. -/
theorem start (mask : String → Value → Value) (values : NameMap Value) :
    ({} : Effects).Agrees mask values values [] where
  store _ := by rw [NameMap.get?_empty, Option.none_or]
  names := rfl
  last _ := rfl

/-- Expressions have the values that they have over the store. -/
theorem evaluate_eq (agree : effects.Agrees mask values store written) (expression : String) :
    Expression.evaluate
        (effects.lookup fun name => (values.get? name).or (constants name)) expression =
      store.evaluate constants expression := by
  have reads : effects.lookup (fun name => (values.get? name).or (constants name)) =
      fun name => (store.get? name).or (constants name) := by
    funext name
    rw [Effects.lookup, agree.store, Option.or_assoc]
  rw [reads, NameMap.evaluate]

/-- A label matches in the overlay exactly if it does in the store. -/
theorem armMatches_eq (agree : effects.Agrees mask values store written) (subject : String)
    (labels : List String) :
    StatementTree.armMatches (effects.lookup fun name => (values.get? name).or (constants name))
        (store.evaluate constants subject) labels =
      decide (∃ label ∈ labels,
        store.evaluate constants label = store.evaluate constants subject) := by
  rw [StatementTree.armMatches, Bool.eq_iff_iff, List.any_eq_true, decide_eq_true_eq]
  simp only [agree.evaluate_eq, beq_iff_eq]

/-- A blocking write is an assignment in the store. -/
theorem write (agree : effects.Agrees mask values store written)
    (masked : ∀ name value, mask name (mask name value) = mask name value)
    (target : String) (value : Value) :
    (effects.write true target (mask target value)).Agrees mask values
      (store.insert target (mask target value)) (written ++ [target]) where
  store name := by
    simp only [Effects.write, if_true, NameMap.get?_insert, agree.store]
    split
    · rfl
    · rfl
  names := by
    rw [Effects.write, List.map_append, agree.names]
    rfl
  last name := by
    simp only [Effects.write, if_true, NameMap.get?_insert, Simulator.lastWrite?_concat]
    split
    · rename_i here
      rw [Option.map_some, ← here, masked]
    · exact agree.last name

end Effects.Agrees

namespace StatementTree

open Effects (Agrees)

variable {mask : String → Value → Value} {constants : String → Option Value}

/-- **A run of blocking assignments does what the program performs.** -/
theorem Performs.agrees (masked : ∀ name value, mask name (mask name value) = mask name value)
    {values store last : NameMap Value} {body : List StatementTree} {written : List String}
    (performs : Performs mask constants store body written last)
    (blocking : OnlyAssigns true (nodesOfBody body)) {before : List String} {effects : Effects}
    (agree : effects.Agrees mask values store before) :
    (runBody mask (fun name => (values.get? name).or (constants name)) effects body).Agrees mask
      values last (before ++ written) := by
  -- Effects and store agree before each statement, whatever has been written before it.
  induction performs generalizing before effects with
  | done store => rwa [runBody, List.append_nil]
  | missing rest ih =>
      rw [runBody, run]
      exact ih (onlyAssigns_append.mp blocking).2 agree
  | @assign store last target expression kind line body written rest ih =>
      obtain ⟨here, later⟩ := onlyAssigns_append.mp blocking
      obtain rfl := here.blocking_eq
      rw [runBody, run, agree.evaluate_eq, List.append_cons]
      exact ih later (agree.write masked target _)
  | thenBody holds taken rest first others =>
      obtain ⟨here, later⟩ := onlyAssigns_append.mp blocking
      obtain ⟨inThen, -⟩ := onlyAssigns_append.mp (onlyAssigns_cons.mp here).2
      rw [runBody, run, agree.evaluate_eq, if_pos holds, ← List.append_assoc]
      exact others later (first inThen agree)
  | elseBody fails taken rest first others =>
      obtain ⟨here, later⟩ := onlyAssigns_append.mp blocking
      obtain ⟨-, inElse⟩ := onlyAssigns_append.mp (onlyAssigns_cons.mp here).2
      rw [runBody, run, agree.evaluate_eq, if_neg (not_not_intro fails), ← List.append_assoc]
      exact others later (first inElse agree)
  | arm matching taken rest first others =>
      obtain ⟨here, later⟩ := onlyAssigns_append.mp blocking
      obtain ⟨inArms, -⟩ := onlyAssigns_append.mp (onlyAssigns_cons.mp here).2
      have inArm := inArms.of_mem (List.mem_of_find?_eq_some matching)
      rw [runBody, run, runArms_eq_find?, agree.evaluate_eq]
      simp only [agree.armMatches_eq, matching, Option.map_some]
      rw [← List.append_assoc]
      exact others later (first inArm agree)
  | otherwise matching taken rest first others =>
      obtain ⟨here, later⟩ := onlyAssigns_append.mp blocking
      obtain ⟨-, inOtherwise⟩ := onlyAssigns_append.mp (onlyAssigns_cons.mp here).2
      rw [runBody, run, runArms_eq_find?, agree.evaluate_eq]
      simp only [agree.armMatches_eq, matching, Option.map_none]
      rw [← List.append_assoc]
      exact others later (first inOtherwise agree)

end StatementTree

namespace Simulator

open StatementTree (Performs OnlyAssigns nodesOfBody)

/-- **A block of blocking assignments is a sequential program.** Whatever has been staged when a
block runs, its program ends from the current values, and however it ends, the block writes the
names that the program assigns, the value in its last store becomes pending for each of them, and
for all other names what was pending stays so. -/
theorem runBlock_performs (simulator : Simulator) (state : SimulationState) (staging : Staging)
    {block : AlwaysBlock × List StatementTree}
    (triggered : isTriggered state simulator.trigger staging block.1 = true)
    (blocking : OnlyAssigns true (nodesOfBody block.2)) :
    (∃ written last, Performs simulator.module.mask simulator.module.constant? state.values block.2
      written last) ∧
    ∀ written last, Performs simulator.module.mask simulator.module.constant? state.values block.2
        written last →
      (simulator.blockWrites state block.2).map Prod.fst = written ∧
      (∀ name ∈ written,
        last.get? name = some (state.pending (simulator.runBlock state staging block) name)) ∧
      ∀ name, name ∉ written →
        state.pending (simulator.runBlock state staging block) name =
          state.pending staging name := by
  refine ⟨StatementTree.exists_performs _ _ block.2 state.values, ?_⟩
  intro written last performs
  have agree := performs.agrees simulator.module.mask_mask blocking
    (Effects.Agrees.start simulator.module.mask state.values)
  have names : (simulator.blockWrites state block.2).map Prod.fst = written := agree.names
  have pending (name : String) :
      state.pending (simulator.runBlock state staging block) name =
        ((lastWrite? name (simulator.blockWrites state block.2)).map
          (simulator.module.mask name)).getD (state.pending staging name) := by
    rw [runBlock, if_pos triggered, pending_stageAll]
  refine ⟨names, fun name member => ?_, fun name other => ?_⟩
  · obtain ⟨value, held⟩ := Option.isSome_iff_exists.mp (isSome_lastWrite? (names ▸ member))
    have overlaid := agree.last name
    change (lastWrite? name (simulator.blockWrites state block.2)).map _ = _ at overlaid
    rw [pending, agree.store, ← overlaid, held]
    rfl
  · have unwritten : lastWrite? name (simulator.blockWrites state block.2) = none := by
      apply lastWrite?_eq_none
      rintro write member rfl
      exact other (names ▸ List.mem_map_of_mem member)
    rw [pending, unwritten]
    rfl

/-- A block that reads what it has just written, in a condition and in a subject. -/
theorem runBlock_performs_chain :
    ∃ module simulator block,
      Module.ofSource?
        "module t(input go, output reg [7:0] a, b, c); always @(go) begin a = 5;
         if (a > 4) b = a + 1; else b = 9; case (b) 5, 6: c = 1; default: c = 2; endcase end
         endmodule" = some module ∧
      Simulator.make module { drives := [⟨0, "go", 1⟩] } = .ok simulator ∧
      simulator.blocks = [block] ∧
      isTriggered simulator.initial simulator.trigger
        (simulator.stageInputs simulator.initial) block.1 = true ∧
      OnlyAssigns true (nodesOfBody block.2) ∧
      ∃ last, Performs simulator.module.mask simulator.module.constant? simulator.initial.values
          block.2 ["a", "b", "c"] last ∧ last.get? "c" = some 1 := by
  let body : List StatementTree :=
    [.assign "a" "5" true 1,
      .branch "a > 4" [.assign "b" "a + 1" true 2] [.assign "b" "9" true 2],
      .select "b" [(["5", "6"], [.assign "c" "1" true 2])] [.assign "c" "2" true 2]]
  let always : AlwaysBlock := ⟨["go"], [0, 3, 6], 1⟩
  let block : AlwaysBlock × List StatementTree := (always, body)
  let module : Module :=
    { name := "t"
      ports := [⟨"go", .input, 1, false, 1⟩, ⟨"a", .output, 8, false, 1⟩,
        ⟨"b", .output, 8, false, 1⟩, ⟨"c", .output, 8, false, 1⟩]
      signals := [⟨"a", .reg, 8, false, none, 1⟩, ⟨"b", .reg, 8, false, none, 1⟩,
        ⟨"c", .reg, 8, false, none, 1⟩]
      alwaysBlocks := [always]
      statements := ⟨#[.assign "a" "5" true 1, .assign "b" "a + 1" true 2,
        .assign "b" "9" true 2, .branch "a > 4" [1] [2], .assign "c" "1" true 2,
        .assign "c" "2" true 2, .select "b" [⟨["5", "6"], [4]⟩] [5]]⟩ }
  let simulator : Simulator := ⟨module, .level, [], [⟨0, "go", 1⟩], [block]⟩
  have parsed :
      Module.ofSource?
        "module t(input go, output reg [7:0] a, b, c); always @(go) begin a = 5;
         if (a > 4) b = a + 1; else b = 9; case (b) 5, 6: c = 1; default: c = 2; endcase end
         endmodule" = some module := by decide +kernel
  have made : Simulator.make module { drives := [⟨0, "go", 1⟩] } = .ok simulator := by
    simp only [module, always, block, body, simulator]
    rfl
  have triggered : isTriggered simulator.initial simulator.trigger
      (simulator.stageInputs simulator.initial) block.1 = true := by decide +kernel
  have blocking : OnlyAssigns true (nodesOfBody block.2) := by
    unfold OnlyAssigns
    decide +kernel
  obtain ⟨⟨written, last, performs⟩, ends⟩ :=
    runBlock_performs simulator simulator.initial (simulator.stageInputs simulator.initial)
      triggered blocking
  obtain ⟨names, values, -⟩ := ends written last performs
  have order : written = ["a", "b", "c"] := by
    rw [← names]
    decide +kernel
  subst order
  refine ⟨module, simulator, block, parsed, made, rfl, triggered, blocking, last, performs, ?_⟩
  rw [values "c" (by decide)]
  decide +kernel

end Simulator

end MiniVerilog
