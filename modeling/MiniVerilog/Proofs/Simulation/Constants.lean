import MiniVerilog.Proofs.Module.Constants
import MiniVerilog.Proofs.Simulation.Shape
import MiniVerilog.Proofs.Token.Name

/-! # Parameters have one value

A name that is declared as a parameter, and neither declared nor assigned otherwise, stands for one
value: the declarations after its last one, the continuous assignments and the always blocks all
read it, in every step (`MiniVerilog.Simulator.readsConstant`). The parameter that is found under
the name has that value if it is declared once, or always with the same value. A parameter that is
declared again with another value is found with the first value and read with the last one.
-/

namespace MiniVerilog

/-- A letter is no digit. -/
theorem Token.isDigit_of_isAlpha {c : Char} (alpha : c.isAlpha = true) : c.isDigit = false := by
  rw [← Bool.not_eq_true]
  intro digit
  have high : c.val ≤ '9'.val := of_decide_eq_true (Bool.and_eq_true_iff.mp digit).2
  have low : 'A'.val ≤ c.val ∨ 'a'.val ≤ c.val :=
    (Bool.or_eq_true_iff.mp alpha).imp (fun upper => (of_decide_eq_true upper).1)
      fun lower => of_decide_eq_true (Bool.and_eq_true_iff.mp lower).1
  rcases low with upper | lower
  · exact absurd (UInt32.le_trans upper high) (by decide)
  · exact absurd (UInt32.le_trans lower high) (by decide)

/-- A name does not start with a digit. -/
theorem Token.isDigit_of_startsName {first : Char} {rest : List Char}
    (starts : startsName first rest = true) : first.isDigit = false := by
  rw [startsName, Bool.or_eq_true, Bool.and_eq_true, beq_iff_eq] at starts
  rcases starts with letter | ⟨rfl, -⟩
  · rw [isNameStart, Bool.or_eq_true, beq_iff_eq] at letter
    rcases letter with alpha | rfl
    · exact isDigit_of_isAlpha alpha
    · rfl
  · rfl

namespace Token.IsLexeme

variable {name : String}

/-- **A name is no literal**: its first character is no digit and no tick. -/
theorem parse?_eq_none (lexeme : IsLexeme .identifier name) :
    Literal.parse? name.toList = none := by
  obtain ⟨first, rest, letters, starts, characters, -⟩ := lexeme.exists_name
  have trimmed := lexeme.trim_eq_self TokenKind.noConfusion TokenKind.noConfusion
  have noTick : '\'' ∉ name.toList := by
    intro tick
    rw [letters] at tick
    rcases List.mem_cons.mp tick with rfl | later
    · cases starts
    · exact absurd (characters _ later) (by decide)
  have noDigit : name.toList.head?.any Char.isDigit = false := by
    rw [letters]
    exact isDigit_of_startsName starts
  rw [Literal.parse?_of_plain (trimmed.symm ▸ noTick), trimmed, Literal.plain?, noDigit]
  rfl

theorem value?_eq_none (lexeme : IsLexeme .identifier name) : Literal.value? name = none :=
  lexeme.parse?_eq_none

/-- A name is no literal with a sign either. -/
theorem signedLiteral?_eq_none (lexeme : IsLexeme .identifier name) :
    Expression.signedLiteral? name = none := by
  obtain ⟨first, rest, letters, starts, -⟩ := lexeme.exists_name
  have noMinus : first ≠ '-' := by
    rintro rfl
    cases starts
  unfold Expression.signedLiteral?
  split
  · rename_i magnitude same
    exact absurd (List.cons.inj (letters.symm.trans same)).1 noMinus
  · exact lexeme.parse?_eq_none

end Token.IsLexeme

namespace Simulator

/-- Under a name everyone reads the same value: the declarations of the source after the last one of
the parameter, the expressions outside always blocks in every step, and the statements that the
blocks come to. If the declarations of the parameter agree, it is also found with this value. -/
structure ReadsConstant (simulator : Simulator) (source name : String) (value : Value) : Prop where
  declarations : ∀ moduleName items earlier later,
    Source.readModule? ((Token.scan source).filter fun token => token.kind != .comment) =
      some (moduleName, items) →
    items.flatMap Source.Item.declarations = earlier ++ later →
    (∀ item ∈ later, name ∉ item.constants) →
    Constant.operand? (Module.ofItems moduleName earlier).constant? name = some value
  expressions : ∀ steps, Expression.operand
    (simulator.lookup (simulator.run steps simulator.initial)) name = value
  statements : ∀ steps, ∀ block ∈ simulator.blocks, ∀ effects statement,
    StatementTree.Meets simulator.module.mask
      (simulator.lookup (simulator.run steps simulator.initial)) {} block.2 effects statement →
    Expression.operand
      (effects.lookup (simulator.lookup (simulator.run steps simulator.initial))) name = value
  found : (∀ parameter ∈ simulator.module.parameters,
      parameter.name = name → parameter.value = value) →
    (simulator.module.parameter? name).map (·.value) = some value

/-- A name that is no literal is read with the value that it has. -/
theorem operand_of_isLexeme {name : String} (lexeme : Token.IsLexeme .identifier name)
    {lookup : String → Option Value} {value : Value} (known : lookup name = some value) :
    Expression.operand lookup name = value := by
  rw [Expression.operand, lexeme.signedLiteral?_eq_none, Option.none_or, known, Option.getD_some]

/-- **A parameter that is no signal has one value** in its module and in every step of a run. -/
theorem readsConstant {source : String} {module : Module} {config : SimulationConfig}
    {simulator : Simulator} {parameter : Parameter}
    (parsed : Module.ofSource? source = some module)
    (made : Simulator.make module config = .ok simulator)
    (declared : parameter ∈ module.parameters)
    (untracked : parameter.name ∉ module.trackedNames) :
    ∃ value, simulator.ReadsConstant source parameter.name value := by
  have lexeme := Module.isLexeme_of_mem_parameters parsed declared
  obtain ⟨last, -, -, constant⟩ := Module.exists_constant? declared
  have origin := madeFrom_of_make made
  have tracked := origin.tracked parsed
  obtain rfl := origin.module_eq
  have known (steps : Nat) :
      simulator.lookup (simulator.run steps simulator.initial) parameter.name =
        some last.value := by
    have noSignal : (simulator.run steps simulator.initial).values.get? parameter.name = none := by
      rw [← Option.not_isSome_iff_eq_none, ← NameMap.contains_eq_isSome,
        contains_values_run tracked]
      exact untracked
    rw [lookup, noSignal, Option.none_or, constant]
  refine ⟨last.value, ?_, ?_, ?_, ?_⟩
  -- The later items declare other constants, so the items so far give the last value already.
  · intro moduleName items earlier later read split foreign
    have whole : Module.ofItems moduleName (earlier ++ later) = simulator.module := by
      rw [← split, Module.ofItems_declarations]
      rw [Module.ofSource?, Module.ofTokens?, read] at parsed
      exact Option.some.inj parsed
    rw [Constant.operand?, lexeme.value?_eq_none, Option.none_or,
      ← Module.constant?_ofItems moduleName earlier foreign, whole, constant]
  · exact fun steps => operand_of_isLexeme lexeme (known steps)
  -- A block that assigned the name would make it a tracked one.
  · intro steps block member effects statement meets
    have unassigned : parameter.name ∉ StatementTree.targetsOfBody block.2 :=
      fun assigned => untracked (tracked _ (.block member assigned))
    exact operand_of_isLexeme lexeme ((meets.lookup_eq unassigned).trans (known steps))
  · exact fun agree => Module.map_value_parameter? declared agree

/-- A parameter of a header sets the width of a port and is read by a block. -/
theorem readsConstant_header :
    ∃ module simulator,
      Module.ofSource?
        "module m #(parameter W = 2)(output reg [W:0] q); always @(*) q = W; endmodule" =
          some module ∧
      Simulator.make module {} = .ok simulator ∧
      simulator.ReadsConstant
        "module m #(parameter W = 2)(output reg [W:0] q); always @(*) q = W; endmodule" "W" 2 := by
  let block : AlwaysBlock := ⟨["*"], [0], 1⟩
  let module : Module :=
    { name := "m"
      ports := [⟨"q", .output, 3, false, 1⟩]
      signals := [⟨"q", .reg, 3, false, none, 1⟩]
      parameters := [⟨"W", 2, false, 1⟩]
      alwaysBlocks := [block]
      statements := ⟨#[.assign "q" "W" true 1]⟩ }
  let simulator : Simulator := ⟨module, .level, [], [], [(block, [.assign "q" "W" true 1])]⟩
  have parsed :
      Module.ofSource?
        "module m #(parameter W = 2)(output reg [W:0] q); always @(*) q = W; endmodule" =
          some module := by decide +kernel
  have made : Simulator.make module {} = .ok simulator := by
    simp only [module, block, simulator]
    rfl
  have start : Expression.operand (simulator.lookup simulator.initial) "W" = 2 := by
    decide +kernel
  obtain ⟨value, reads⟩ := readsConstant parsed made List.mem_cons_self (by decide +kernel)
  have same : value = 2 := (reads.expressions 0).symm.trans start
  exact ⟨module, simulator, parsed, made, same ▸ reads⟩

/-- A parameter that is declared twice is found with its first value, but its last value sets the
width of a net and is read in the first step. -/
theorem parameter?_declared_twice :
    ∃ module simulator,
      Module.ofSource? "module m; parameter P = 1; parameter P = 2; wire [P:0] w; endmodule" =
        some module ∧
      Simulator.make module {} = .ok simulator ∧
      "P" ∉ module.trackedNames ∧
      (module.parameter? "P").map (·.value) = some 1 ∧
      module.widthOf? "w" = some 3 ∧
      Expression.operand (simulator.lookup simulator.initial) "P" = 2 := by
  let module : Module :=
    { name := "m"
      signals := [⟨"w", .wire, 3, false, none, 1⟩]
      parameters := [⟨"P", 1, false, 1⟩, ⟨"P", 2, false, 1⟩] }
  let simulator : Simulator := ⟨module, .level, [], [], []⟩
  refine ⟨module, simulator, ?_, ?_, ?_, ?_, ?_, ?_⟩
  · decide +kernel
  · simp only [module, simulator]
    rfl
  · decide
  · decide
  · decide
  · decide +kernel

end Simulator

end MiniVerilog
