import MiniVerilog.Number.Constant
import MiniVerilog.Proofs.Number.Literal

/-! # Numbers that are written in decimal

A number that is written in decimal is read as itself, as a literal
(`MiniVerilog.Literal.value?_toString`) and as a constant expression
(`MiniVerilog.Constant.fold_toString`), so the width of a range is known from the numbers that are
written for its bounds (`MiniVerilog.Value.rangeWidth_ofNat`).
-/

namespace MiniVerilog

/-- A decimal number is a constant with its own value. -/
theorem Constant.fold_toString (lookup : String → Option Value) (number : Nat) :
    fold lookup [toString number] = some (Int64.ofNat number) := by
  have opening : toString number ≠ "(" :=
    toString_ne_of_mem (c := '(') List.mem_cons_self (by decide) number
  have closing : toString number ≠ ")" :=
    toString_ne_of_mem (c := ')') List.mem_cons_self (by decide) number
  have kept : [toString number].filter (fun word => word != "(" && word != ")") =
      [toString number] := by
    rw [List.filter_cons_of_pos, List.filter_nil]
    rw [Bool.and_eq_true, bne_iff_ne, bne_iff_ne]
    exact ⟨opening, closing⟩
  simp only [fold, kept, operand?, Literal.value?_toString, Option.some_or, Option.bind_eq_bind,
    Option.bind_some, foldFrom]

/-- **The width of a range** is the distance of its bounds and one more, up to the largest width
there is. -/
theorem Value.rangeWidth_ofNat {high low : Nat} (highFits : high < 2 ^ 63)
    (lowFits : low < 2 ^ 63) :
    rangeWidth (Int64.ofNat high) (Int64.ofNat low) =
      min (((high : Int) - low).natAbs + 1) maxWidth := by
  rw [rangeWidth, Int64.toInt_ofNat_of_lt highFits, Int64.toInt_ofNat_of_lt lowFits]

end MiniVerilog
