import MiniVerilog.Module.Elaborate
import MiniVerilog.Proofs.Simulation.Reordering
import MiniVerilog.Proofs.Statement.Walk

/-! # Non-blocking statements commute

A body without blocking assignments reads only values of before the step, so each of its
statements writes the same wherever it stands
(`MiniVerilog.StatementTree.writes_runBody_nonblocking`). If no two statements assign a common name,
another order keeps the order of the writes to each name, and the runs are the same but for the
order of the events of a step (`MiniVerilog.Simulator.run_commutes`). Later blocks see that log,
but no event control depends on its order.
-/

namespace MiniVerilog

/-- The effects with writes before all others. -/
def Effects.prepend (earlier : List (String × Value)) (effects : Effects) : Effects :=
  { effects with writes := earlier ++ effects.writes }

/-- Writes that were made before stay in front. -/
theorem Effects.write_prepend (earlier : List (String × Value)) (effects : Effects)
    (blocking : Bool) (target : String) (value : Value) :
    (effects.prepend earlier).write blocking target value =
      (effects.write blocking target value).prepend earlier := by
  rw [write, write, prepend, prepend, List.append_assoc]

/-- Writes of one kind keep a property. -/
def Effects.KeepsKind (motive : Effects → Prop) (blocking : Bool) : Prop :=
  ∀ effects target value, motive effects → motive (effects.write blocking target value)

namespace StatementTree

variable (mask : String → Value → Value) (outer : String → Option Value)

section Prepend

variable (earlier : List (String × Value))

mutual

/-- A statement reads none of the writes that came before it. -/
theorem run_prepend (effects : Effects) (tree : StatementTree) :
    run mask outer (effects.prepend earlier) tree =
      (run mask outer effects tree).prepend earlier := by
  cases tree with
  | missing => rfl
  | assign target expression blocking line =>
      rw [run, run, Effects.write_prepend]
      rfl
  | branch condition thenBody elseBody =>
      rw [run, run, runBody_prepend, runBody_prepend, apply_ite (Effects.prepend earlier)]
      rfl
  | select subject arms otherwise =>
      have same : Effects.lookup outer (effects.prepend earlier) = effects.lookup outer := rfl
      rw [run, run, runArms_prepend, runBody_prepend, same]
      cases runArms mask outer effects (Expression.evaluate (effects.lookup outer) subject) arms <;>
        rfl

/-- **A body reads none of the writes that came before it.** -/
theorem runBody_prepend (effects : Effects) (body : List StatementTree) :
    runBody mask outer (effects.prepend earlier) body =
      (runBody mask outer effects body).prepend earlier := by
  cases body with
  | nil => rfl
  | cons tree body => rw [runBody, runBody, run_prepend, runBody_prepend]

/-- Neither does the arm that is taken. -/
theorem runArms_prepend (effects : Effects) (subject : Value)
    (arms : List (List String × List StatementTree)) :
    runArms mask outer (effects.prepend earlier) subject arms =
      (runArms mask outer effects subject arms).map (Effects.prepend earlier) := by
  cases arms with
  | nil => rfl
  | cons arm arms =>
      obtain ⟨labels, body⟩ := arm
      rw [runArms, runArms, runBody_prepend, runArms_prepend, apply_ite (Option.map _)]
      rfl

end

end Prepend

section Kind

variable {motive : Effects → Prop} {blocking : Bool}

open Effects (KeepsKind)

mutual

/-- A statement with assignments of one kind keeps what their writes keep. -/
theorem run_keeps_kind {effects : Effects} (tree : StatementTree)
    (keeps : KeepsKind motive blocking) (only : OnlyAssigns blocking tree.nodes)
    (held : motive effects) :
    motive (run mask outer effects tree) := by
  cases tree with
  | missing => exact held
  | assign target expression kind line =>
      obtain rfl := only.blocking_eq
      exact keeps effects target _ held
  | branch condition thenBody elseBody =>
      obtain ⟨inThen, inElse⟩ := onlyAssigns_append.mp (onlyAssigns_cons.mp only).2
      rw [run]
      split
      · exact runBody_keeps_kind thenBody keeps inThen held
      · exact runBody_keeps_kind elseBody keeps inElse held
  | select subject arms otherwise =>
      obtain ⟨inArms, inOtherwise⟩ := onlyAssigns_append.mp (onlyAssigns_cons.mp only).2
      rw [run]
      split
      · rename_i taken ran
        exact runArms_keeps_kind _ arms keeps inArms held ran
      · exact runBody_keeps_kind otherwise keeps inOtherwise held

/-- **A body with assignments of one kind keeps what their writes keep.** -/
theorem runBody_keeps_kind {effects : Effects} (body : List StatementTree)
    (keeps : KeepsKind motive blocking) (only : OnlyAssigns blocking (nodesOfBody body))
    (held : motive effects) : motive (runBody mask outer effects body) := by
  cases body with
  | nil => exact held
  | cons tree body =>
      obtain ⟨here, later⟩ := onlyAssigns_append.mp only
      exact runBody_keeps_kind body keeps later (run_keeps_kind tree keeps here held)

/-- So does the arm that is taken. -/
theorem runArms_keeps_kind {effects : Effects} (subject : Value)
    (arms : List (List String × List StatementTree)) (keeps : KeepsKind motive blocking)
    (only : OnlyAssigns blocking (nodesOfArms arms)) (held : motive effects) {taken : Effects}
    (ran : runArms mask outer effects subject arms = some taken) : motive taken := by
  cases arms with
  | nil => cases ran
  | cons arm arms =>
      obtain ⟨labels, body⟩ := arm
      obtain ⟨here, later⟩ := onlyAssigns_append.mp only
      rw [runArms] at ran
      split at ran
      · cases ran
        exact runBody_keeps_kind body keeps here held
      · exact runArms_keeps_kind subject arms keeps later held ran

end

end Kind

/-- **Each statement writes the same wherever it stands** in a body without blocking
assignments. -/
theorem writes_runBody_nonblocking {body : List StatementTree}
    (nonblocking : OnlyAssigns false (nodesOfBody body)) :
    (runBody mask outer {} body).writes =
      body.flatMap fun tree => (run mask outer {} tree).writes := by
  induction body with
  | nil => rfl
  | cons tree body ih =>
      obtain ⟨here, later⟩ := onlyAssigns_append.mp nonblocking
      have keeps : Effects.KeepsKind (fun effects => effects.locals = ∅) false :=
        fun _ _ _ hidden => hidden
      have alone : run mask outer {} tree = Effects.prepend (run mask outer {} tree).writes {} :=
        calc run mask outer {} tree
          _ = ⟨(run mask outer {} tree).locals, (run mask outer {} tree).writes⟩ := rfl
          _ = ⟨∅, (run mask outer {} tree).writes ++ []⟩ := by
            rw [run_keeps_kind mask outer tree keeps here rfl, List.append_nil]
      rw [runBody, alone, runBody_prepend, List.flatMap_cons, ← ih later]
      rfl

/-- A statement writes the names it assigns. -/
theorem writes_run (tree : StatementTree) :
    ∀ write ∈ (run mask outer {} tree).writes, write.1 ∈ tree.targets := by
  have writes := runBody_writes mask outer [tree]
  rwa [targetsOfBody, targetsOfBody, List.append_nil] at writes

/-- The statements of a body may change places: none of them has a blocking assignment, and no two
of them assign a common name. -/
structure Commutes (body : List StatementTree) : Prop where
  nonblocking : OnlyAssigns false (nodesOfBody body)
  apart : body.Pairwise fun first second => first.targets.Disjoint second.targets

theorem nodesOfBody_eq_flatMap (body : List StatementTree) :
    nodesOfBody body = body.flatMap nodes := by
  induction body with
  | nil => rfl
  | cons tree body ih => rw [nodesOfBody, ih, List.flatMap_cons]

theorem targetsOfBody_eq_flatMap (body : List StatementTree) :
    targetsOfBody body = body.flatMap targets := by
  induction body with
  | nil => rfl
  | cons tree body ih => rw [targetsOfBody, ih, List.flatMap_cons]

variable {body other : List StatementTree}

/-- Statements that commute do so in every order. -/
theorem Commutes.perm (commutes : Commutes body) (perm : other.Perm body) : Commutes other where
  nonblocking := by
    intro tree member
    rw [nodesOfBody_eq_flatMap] at member
    apply commutes.nonblocking
    rw [nodesOfBody_eq_flatMap]
    exact (perm.flatMap_right nodes).mem_iff.mp member
  apart := perm.symm.pairwise commutes.apart List.disjoint_symm

/-- **The writes to each name keep their order.** -/
theorem Commutes.filter_writes (commutes : Commutes body) (perm : other.Perm body)
    (name : String) :
    (runBody mask outer {} other).writes.filter (·.1 = name) =
      (runBody mask outer {} body).writes.filter (·.1 = name) := by
  rw [writes_runBody_nonblocking mask outer commutes.nonblocking,
    writes_runBody_nonblocking mask outer (commutes.perm perm).nonblocking]
  have apart := commutes.apart
  clear commutes
  induction perm with
  | nil => rfl
  | cons tree _ ih =>
      rw [List.flatMap_cons, List.flatMap_cons, List.filter_append, List.filter_append,
        ih apart.of_cons]
  | swap first second rest =>
      -- One of the two statements does not write the name.
      have never : ∀ tree : StatementTree, name ∉ tree.targets →
          (run mask outer {} tree).writes.filter (·.1 = name) = [] := by
        intro tree absent
        refine List.filter_eq_nil_iff.mpr fun write member same => absent ?_
        exact of_decide_eq_true same ▸ writes_run mask outer tree write member
      have disjoint := (List.pairwise_cons.mp apart).1 second List.mem_cons_self
      simp only [List.flatMap_cons, List.filter_append]
      by_cases assigned : name ∈ first.targets
      · rw [never second (disjoint assigned), List.nil_append, List.nil_append]
      · rw [never first assigned, List.nil_append, List.nil_append]
  | trans first second firstIh secondIh =>
      exact (firstIh (second.symm.pairwise apart List.disjoint_symm)).trans (secondIh apart)

end StatementTree

namespace Simulator

variable (simulator : Simulator) {first second : SimulationState}

/-- The simulator with other always blocks in its module. -/
def withBlocks (simulator : Simulator) (alwaysBlocks : List AlwaysBlock) : Simulator :=
  { simulator with
    module := { simulator.module with alwaysBlocks }
    blocks := alwaysBlocks.map fun block => (block, simulator.module.trees block.body) }

/-- A block stages the same with its statements in another order. -/
theorem runBlock_commutes (states : first.Reorders second) {left right : Staging}
    (agree : left.Reorders right) (block : AlwaysBlock) (numbers : List Nat)
    {body other : List StatementTree} (commutes : StatementTree.Commutes body)
    (perm : other.Perm body) :
    (simulator.runBlock first left ({ block with body := numbers }, other)).Reorders
      (simulator.runBlock second right (block, body)) := by
  rw [runBlock, runBlock, ← isTriggered_reorders states agree]
  change (if isTriggered first simulator.trigger left block then _ else _ : Staging).Reorders _
  split
  · rw [blockWrites, blockWrites, ← simulator.lookup_reorders states]
    exact (simulator.stageAll_reorder first .change (commutes.filter_writes _ _ perm) left).trans
      (simulator.stageAll_reorders states .change agree _)
  · exact agree

section Run

variable {simulator} {before after : List AlwaysBlock} {block : AlwaysBlock} {body : List Nat}
  (perm : body.Perm block.body)
  (commutes : StatementTree.Commutes (simulator.module.trees block.body))

include perm commutes

/-- **A step changes nothing but the order of its events.** -/
theorem step_commutes (blocks : simulator.blocks = (before ++ block :: after).map fun block =>
      (block, simulator.module.trees block.body)) (states : first.Reorders second) :
    ((simulator.withBlocks (before ++ { block with body } :: after)).step first).Reorders
      (simulator.step second) := by
  have inputs : (simulator.stageInputs first).Reorders (simulator.stageInputs second) := by
    rw [stageInputs, stageInputs, ← simulator.assignedValues_reorders states]
    exact simulator.stageAll_reorders states .change (simulator.stimulus_reorders states) _
  refine states.commit ?_
  rw [stageStep, stageStep, blocks, List.map_append, List.map_cons, List.foldl_append,
    List.foldl_cons]
  change (((before ++ { block with body } :: after).map _).foldl (simulator.runBlock first)
    (simulator.stageInputs first)).Reorders _
  rw [List.map_append, List.map_cons, List.foldl_append, List.foldl_cons]
  exact simulator.foldl_runBlock_reorders states _ (simulator.runBlock_commutes states
    (simulator.foldl_runBlock_reorders states _ inputs) block body commutes (perm.map _))

end Run

end Simulator

namespace Module

variable {module : Module} {before after : List AlwaysBlock} {block : AlwaysBlock}
  {body : List Nat}

/-- Reordering the statements of a block keeps the tracked names. -/
theorem mem_trackedNames_withBody (split : module.alwaysBlocks = before ++ block :: after)
    (perm : body.Perm block.body) {name : String} :
    name ∈ { module with alwaysBlocks := before ++ { block with body } :: after }.trackedNames ↔
      name ∈ module.trackedNames := by
  have assigned : name ∈ StatementTree.targetsOfBody (module.trees body) ↔
      name ∈ StatementTree.targetsOfBody (module.trees block.body) := by
    rw [StatementTree.targetsOfBody_eq_flatMap, StatementTree.targetsOfBody_eq_flatMap]
    exact ((perm.map _).flatMap_right StatementTree.targets).mem_iff
  rw [mem_trackedNames_iff_ne, mem_trackedNames_iff_ne, DeclaresOrAssigns, DeclaresOrAssigns, split]
  refine and_congr_left' (or_congr_right ?_)
  simp only [List.mem_append, List.mem_cons, or_and_right, exists_or, exists_eq_left]
  exact or_congr_right (or_congr_left assigned)

end Module

namespace Simulator

variable {module : Module} {before after : List AlwaysBlock} {block : AlwaysBlock}
  {body : List Nat}

/-- **Non-blocking statements commute.** If a block has no blocking assignment and no two of its
statements assign a common name, then with its statements in another order a run has the same
values, before and after every step, and the same waveform, and the events of every time are the
same in some order. -/
theorem run_commutes (split : module.alwaysBlocks = before ++ block :: after)
    (perm : body.Perm block.body)
    (commutes : StatementTree.Commutes (module.trees block.body)) {config : SimulationConfig}
    {simulator : Simulator} (made : Simulator.make module config = .ok simulator) :
    ∃ other, Simulator.make
        { module with alwaysBlocks := before ++ { block with body } :: after } config = .ok other ∧
      ∀ steps, (other.run steps other.initial).Reorders
        (simulator.run steps simulator.initial) := by
  obtain ⟨rfl, trigger, clocksEq, drivesEq, blocks, clocks, drives⟩ := madeFrom_of_make made
  have tracked : ∀ name, name ∈ { simulator.module with
      alwaysBlocks := before ++ { block with body } :: after }.trackedNames ↔
      name ∈ simulator.module.trackedNames :=
    fun _ => Module.mem_trackedNames_withBody split perm
  refine ⟨simulator.withBlocks (before ++ { block with body } :: after), ?_, fun steps => ?_⟩
  · rw [make_eq_ok (fun clock member => (clocks clock member).imp_left (tracked _).mpr)
      (fun drive member => (tracked _).mpr (drives drive member)), withBlocks, trigger, clocksEq,
      drivesEq]
    rfl
  · have initial : (simulator.withBlocks (before ++ { block with body } :: after)).initial =
        simulator.initial := by
      rw [Simulator.initial, Simulator.initial, withBlocks,
        Module.initialValues_congr tracked rfl]
    rw [initial]
    exact simulator.run_reorders_of_step (step_commutes perm commutes (split ▸ blocks)) steps
      (.refl simulator.initial)

/-- Two registers that change their values, with a block after them that waits for one of them.
Their events come in the order of the statements. -/
theorem run_commutes_swap :
    ∃ module block simulator other,
      Module.ofSource?
        "module t(input c); reg x = 1; reg y; reg m; always @(posedge c) begin x <= y;
         if (x) y <= x; else y <= 0; end always @(y) m <= x; endmodule" = some module ∧
      module.alwaysBlocks.head? = some block ∧
      Simulator.make module { trigger := .edge, clocks := [⟨"c", 1⟩] } = .ok simulator ∧
      Simulator.make { module with alwaysBlocks :=
          { block with body := block.body.reverse } :: module.alwaysBlocks.tail }
        { trigger := .edge, clocks := [⟨"c", 1⟩] } = .ok other ∧
      (simulator.run 1 simulator.initial).values.get? "y" = some 1 ∧
      (simulator.run 1 simulator.initial).values.get? "m" = some 1 ∧
      (other.run 1 other.initial).events ≠ (simulator.run 1 simulator.initial).events ∧
      (other.run 1 other.initial).Reorders (simulator.run 1 simulator.initial) := by
  let block : AlwaysBlock := ⟨["posedge", "c"], [0, 3], 1⟩
  let module : Module :=
    { name := "t"
      ports := [⟨"c", .input, 1, false, 1⟩]
      signals := [⟨"x", .reg, 1, false, some 1, 1⟩, ⟨"y", .reg, 1, false, none, 1⟩,
        ⟨"m", .reg, 1, false, none, 1⟩]
      alwaysBlocks := [block, ⟨["y"], [4], 2⟩]
      statements := ⟨#[.assign "x" "y" false 1, .assign "y" "x" false 2, .assign "y" "0" false 2,
        .branch "x" [1] [2], .assign "m" "x" false 2]⟩ }
  let config : SimulationConfig := { trigger := .edge, clocks := [⟨"c", 1⟩] }
  have parsed :
      Module.ofSource?
        "module t(input c); reg x = 1; reg y; reg m; always @(posedge c) begin x <= y;
         if (x) y <= x; else y <= 0; end always @(y) m <= x; endmodule" = some module := by
    decide +kernel
  have commutes : StatementTree.Commutes (module.trees block.body) := by
    refine ⟨?_, List.pairwise_pair.mpr ?_⟩
    · unfold StatementTree.OnlyAssigns
      decide +kernel
    · exact List.singleton_disjoint.mpr (show "x" ∉ ["y", "y"] by decide)
  have made : Simulator.make module config = .ok _ :=
    make_eq_ok (by decide +kernel) (by decide +kernel)
  have otherMade : Simulator.make { module with alwaysBlocks :=
      { block with body := block.body.reverse } :: module.alwaysBlocks.tail } config = .ok _ :=
    make_eq_ok (by decide +kernel) (by decide +kernel)
  obtain ⟨other, reordered, agree⟩ :=
    run_commutes (show module.alwaysBlocks = [] ++ block :: [_] from rfl)
      (List.reverse_perm block.body) commutes made
  obtain rfl := Except.ok.inj (reordered.symm.trans otherMade)
  refine ⟨module, block, _, _, parsed, rfl, made, otherMade, ?_, ?_, ?_, agree 1⟩
  · decide +kernel
  · decide +kernel
  · decide +kernel

end Simulator

end MiniVerilog
