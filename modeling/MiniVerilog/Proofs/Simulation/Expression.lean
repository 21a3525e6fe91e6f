import MiniVerilog.Simulation.Expression

/-! # What an expression reads

The value of an expression depends only on the values of its words
(`MiniVerilog.Expression.evaluate_congr`).
-/

namespace MiniVerilog.Expression

variable {first second : String → Option Value}

theorem operand_congr {word : String} (same : first word = second word) :
    operand first word = operand second word := by
  rw [operand, same, operand]

/-- The value of an expression depends on the values of its words. -/
theorem evaluateWords_congr {words : List String}
    (same : ∀ word ∈ words, first word = second word) :
    evaluateWords first words = evaluateWords second words := by
  match words with
  | [] => rfl
  | [word] =>
      rw [evaluateWords, evaluateWords, operand_congr (same word List.mem_cons_self)]
  | [operator, word] =>
      have inside : word ∈ [operator, word] := List.mem_cons_of_mem _ List.mem_cons_self
      rw [evaluateWords, evaluateWords, operand_congr (same word inside)]
  | [left, operator, right] =>
      have inside : right ∈ [left, operator, right] := List.mem_of_getLast? rfl
      rw [evaluateWords, evaluateWords, operand_congr (same left List.mem_cons_self),
        operand_congr (same right inside)]
  | _ :: _ :: _ :: _ :: _ => rfl

/-- **An expression reads only its words.** -/
theorem evaluate_congr {text : String}
    (same : ∀ word ∈ Text.wordsOf text, first word = second word) :
    evaluate first text = evaluate second text :=
  evaluateWords_congr same

end MiniVerilog.Expression
