import MiniVerilog.Module.Elaborate
import MiniVerilog.Proofs.Token.Name

/-! # Types in declarations

The word `signed` and a range may stand in front of the names of a declaration. When they are
written, they are read (`MiniVerilog.Source.takeRange?_typeParts`), and the width of the names is
the one that the bounds say (`MiniVerilog.Module.widthOfRange_rangeWords`).
-/

namespace MiniVerilog

open Token (Part tokensAt Written Closed)

/-- What stands in front of the names of a declaration. -/
def typeParts (isSigned : Bool) (range : Option (Nat × Nat)) : List Part :=
  (if isSigned then [.lexeme .identifier "signed", .space] else []) ++
    match range with
    | none => []
    | some (high, low) =>
      [.mark '[', .lexeme .number (toString high), .mark ':', .lexeme .number (toString low),
        .mark ']', .space]

/-- The words of a range. -/
def rangeWords (range : Option (Nat × Nat)) : Option Source.Range :=
  range.map fun (high, low) => ⟨[toString high], [toString low]⟩

/-- The number of bits that a range says. -/
def rangeBits (range : Option (Nat × Nat)) : Nat :=
  match range with
  | none => 1
  | some (high, low) => min (((high : Int) - low).natAbs + 1) Value.maxWidth

section Parts

variable (isSigned : Bool) (range : Option (Nat × Nat))

theorem closed_typeParts : Closed (typeParts isSigned range) := by
  intro kind text last
  cases isSigned <;> rcases range with _ | ⟨high, low⟩ <;> cases last

/-- A type is told apart into its parts. -/
theorem written_typeParts : Written (typeParts isSigned range) := by
  have signedPart : Written (if isSigned then [.lexeme .identifier "signed", .space] else []) := by
    split
    · decide
    · trivial
  have signedCloses : Closed
      (if isSigned then [.lexeme .identifier "signed", .space] else []) := by
    intro kind text last
    split at last <;> cases last
  refine signedPart.append signedCloses ?_
  split
  · trivial
  · exact ((Token.isSolid_number _).before_mark (by decide)
      ((Token.isSolid_number _).before_mark (by decide) (by decide))).mark (by decide)

end Parts

namespace Source

variable (isSigned : Bool) (range : Option (Nat × Nat)) (line column : Nat) {name : Token}

/-- **A type is read** when a name stands behind it that is not the word `signed`. -/
theorem takeRange?_typeParts (noMark : name.text ≠ "signed") (identifier : name.isIdentifier = true)
    (rest : List Token) :
    headIs isSignedMark (tokensAt line column (typeParts isSigned range) ++ name :: rest) =
        isSigned ∧
      takeRange? (skipIf isSignedMark
          (tokensAt line column (typeParts isSigned range) ++ name :: rest)) =
        (rangeWords range, name :: rest) := by
  have noSigned : isSignedMark name = false := by
    rw [isSignedMark, identifier, beq_eq_false_iff_ne.mpr noMark]
    rfl
  obtain ⟨kind, text, nameLine, nameColumn⟩ := name
  obtain rfl : kind = .identifier := beq_iff_eq.mp identifier
  rcases range with _ | ⟨high, low⟩
  · cases isSigned with
    | false =>
        change headIs isSignedMark (_ :: rest) = false ∧
          takeRange? (skipIf isSignedMark (_ :: rest)) = _
        rw [skipIf, noSigned]
        exact ⟨noSigned, rfl⟩
    | true => exact ⟨rfl, rfl⟩
  · cases isSigned <;> exact ⟨rfl, rfl⟩

/-- A type does not start with the kind of a signal. -/
theorem skipIf_typeParts (identifier : name.isIdentifier = true) (rest : List Token) :
    headIs (Token.isKeyword .reg)
        (tokensAt line column (typeParts isSigned range) ++ name :: rest) = false ∧
      skipIf (fun token => token.isKeyword .reg || token.isKeyword .wire)
          (tokensAt line column (typeParts isSigned range) ++ name :: rest) =
        tokensAt line column (typeParts isSigned range) ++ name :: rest := by
  obtain ⟨kind, text, nameLine, nameColumn⟩ := name
  obtain rfl : kind = .identifier := beq_iff_eq.mp identifier
  rcases range with _ | ⟨high, low⟩ <;> cases isSigned <;> exact ⟨rfl, rfl⟩

end Source

/-- **The width of a range that is written in decimal** is the one that its bounds say. -/
theorem Module.widthOfRange_rangeWords (module : Module) {range : Option (Nat × Nat)}
    (fits : ∀ high low, range = some (high, low) → high < 2 ^ 63 ∧ low < 2 ^ 63) :
    module.widthOfRange (rangeWords range) = rangeBits range := by
  rcases range with _ | ⟨high, low⟩
  · rfl
  · obtain ⟨highFits, lowFits⟩ := fits high low rfl
    simp only [widthOfRange, rangeWords, Option.map_some, fold, Constant.fold_toString,
      Value.rangeWidth_ofNat highFits lowFits, rangeBits]

end MiniVerilog
