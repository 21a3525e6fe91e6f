import MiniVerilog.Proofs.Simulation.Expression
import MiniVerilog.Simulation.Block

/-! # What a body reads

A body reads nothing but the words of its expressions, conditions, subjects and labels: under
two readings of names that agree on these words it has the same effects
(`MiniVerilog.StatementTree.runBody_congr`).
-/

namespace MiniVerilog.StatementTree

mutual

/-- The words of the expressions in a statement, those of conditions, subjects and labels
included. -/
def reads : StatementTree → List String
  | missing => []
  | assign _ expression _ _ => Text.wordsOf expression
  | branch condition thenBody elseBody =>
    Text.wordsOf condition ++ (readsOfBody thenBody ++ readsOfBody elseBody)
  | select subject arms otherwise =>
    Text.wordsOf subject ++ (readsOfArms arms ++ readsOfBody otherwise)

/-- The words of the expressions in a body. -/
def readsOfBody : List StatementTree → List String
  | [] => []
  | tree :: body => reads tree ++ readsOfBody body

/-- The words of the expressions in the alternatives of a case statement. -/
def readsOfArms : List (List String × List StatementTree) → List String
  | [] => []
  | (labels, body) :: arms =>
    labels.flatMap Text.wordsOf ++ (readsOfBody body ++ readsOfArms arms)

end

variable {first second : String → Option Value}

/-- What a statement reads under a name: the blocking writes are the same on both sides. -/
theorem evaluate_lookup_congr (effects : Effects) {text : String}
    (same : ∀ word ∈ Text.wordsOf text, first word = second word) :
    Expression.evaluate (effects.lookup first) text =
      Expression.evaluate (effects.lookup second) text := by
  apply Expression.evaluate_congr
  intro word inside
  rw [Effects.lookup, Effects.lookup, same word inside]

/-- A label matches by the values of its words and of the subject. -/
theorem armMatches_congr (effects : Effects) (subject : Value) {labels : List String}
    (same : ∀ word ∈ labels.flatMap Text.wordsOf, first word = second word) :
    armMatches (effects.lookup first) subject labels =
      armMatches (effects.lookup second) subject labels := by
  rw [armMatches, armMatches, Bool.eq_iff_iff, List.any_eq_true, List.any_eq_true]
  refine exists_congr fun label => and_congr_right fun member => ?_
  rw [evaluate_lookup_congr effects fun word inside =>
    same word (List.mem_flatMap.mpr ⟨label, member, inside⟩)]

variable (mask : String → Value → Value)

mutual

/-- A statement reads only its words. -/
theorem run_congr (effects : Effects) (tree : StatementTree)
    (same : ∀ word ∈ tree.reads, first word = second word) :
    run mask first effects tree = run mask second effects tree := by
  cases tree with
  | missing => rfl
  | assign target expression blocking line =>
      rw [run, run, evaluate_lookup_congr effects same]
  | branch condition thenBody elseBody =>
      obtain ⟨inCondition, inBodies⟩ := List.forall_mem_append.mp same
      obtain ⟨inThen, inElse⟩ := List.forall_mem_append.mp inBodies
      rw [run, run, evaluate_lookup_congr effects inCondition,
        runBody_congr effects thenBody inThen, runBody_congr effects elseBody inElse]
  | select subject arms otherwise =>
      obtain ⟨inSubject, inBodies⟩ := List.forall_mem_append.mp same
      obtain ⟨inArms, inOtherwise⟩ := List.forall_mem_append.mp inBodies
      rw [run, run, evaluate_lookup_congr effects inSubject, runArms_congr effects _ arms inArms,
        runBody_congr effects otherwise inOtherwise]

/-- **A body reads only its words.** -/
theorem runBody_congr (effects : Effects) (body : List StatementTree)
    (same : ∀ word ∈ readsOfBody body, first word = second word) :
    runBody mask first effects body = runBody mask second effects body := by
  cases body with
  | nil => rfl
  | cons tree body =>
      obtain ⟨here, later⟩ := List.forall_mem_append.mp same
      rw [runBody, runBody, run_congr effects tree here, runBody_congr _ body later]

/-- The alternatives of a case statement read only their words. -/
theorem runArms_congr (effects : Effects) (subject : Value)
    (arms : List (List String × List StatementTree))
    (same : ∀ word ∈ readsOfArms arms, first word = second word) :
    runArms mask first effects subject arms = runArms mask second effects subject arms := by
  cases arms with
  | nil => rfl
  | cons arm arms =>
      obtain ⟨labels, body⟩ := arm
      obtain ⟨inLabels, inBodies⟩ := List.forall_mem_append.mp same
      obtain ⟨inBody, inArms⟩ := List.forall_mem_append.mp inBodies
      rw [runArms, runArms, armMatches_congr effects subject inLabels,
        runBody_congr effects body inBody, runArms_congr effects subject arms inArms]

end

end MiniVerilog.StatementTree
