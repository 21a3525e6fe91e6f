import Mathlib.Algebra.Group.Nat.Defs
import Mathlib.Data.Bool.AllAny
import Mathlib.Data.Nat.Digits.Defs
import MiniVerilog.Number.Literal

/-! # Numerals

A numeral of a base is a text of figures and underscores with at least one figure. Numerals are read
as the numbers that their figures stand for, and no other text is read
(`MiniVerilog.Literal.digits?_eq_some_iff`). The decimal text of a number is a numeral of this
number.
-/

namespace MiniVerilog

/-- The characters of ASCII can be checked one by one. -/
theorem forall_char {property : Char → Prop}
    (ascii : ∀ code ≤ 0x7F, property (Char.ofNat code))
    (others : ∀ c : Char, 0x7F < c.toNat → property c) (c : Char) : property c := by
  by_cases low : c.toNat ≤ 0x7F
  · have known := ascii c.toNat low
    rwa [Char.ofNat_toNat] at known
  · exact others c (Nat.lt_of_not_le low)

/-- Only letters of ASCII have a lower case of their own. -/
theorem toLower_eq_self {c : Char} (high : 0x7F < c.toNat) : c.toLower = c := by
  refine dif_neg fun both => ?_
  have low : c.toNat ≤ 90 := both.2
  omega

/-- The decimal digits. -/
def decimalDigits : List Char :=
  ['0', '1', '2', '3', '4', '5', '6', '7', '8', '9']

theorem toNat_le_of_isDigit {c : Char} (digit : c.isDigit = true) : c.toNat ≤ 0x7F :=
  Nat.le_trans (of_decide_eq_true (Bool.and_eq_true_iff.mp digit).2 : c.toNat ≤ 57) (by decide)

/-- The list of decimal digits is complete. The cases are the ASCII characters and all others. -/
theorem mem_decimalDigits {c : Char} : c.isDigit = true → c ∈ decimalDigits := by
  induction c using forall_char with
  | ascii code low =>
      revert code
      decide +kernel
  | others c high => exact fun digit => absurd (toNat_le_of_isDigit digit) (Nat.not_le_of_lt high)

theorem mem_decimalDigits_of_mem {number : Nat} {c : Char}
    (member : c ∈ (toString number).toList) : c ∈ decimalDigits := by
  rw [Nat.toString_eq_repr, Nat.toList_repr] at member
  exact mem_decimalDigits (Nat.isDigit_of_mem_toDigits (by decide) (by decide) member)

/-- A text with another character than digits is no number. -/
theorem toString_ne_of_mem {text : String} {c : Char} (member : c ∈ text.toList)
    (other : c ∉ decimalDigits) (number : Nat) : toString number ≠ text := by
  rintro rfl
  exact other (mem_decimalDigits_of_mem member)

namespace Radix

/-- The letter of a base, in lower case. -/
def letter : Radix → Char
  | binary => 'b'
  | octal => 'o'
  | decimal => 'd'
  | hexadecimal => 'h'

theorem ofLetter?_eq_some_iff {radix : Radix} {c : Char} :
    ofLetter? c = some radix ↔ c.toLower = radix.letter := by
  unfold ofLetter?
  cases radix <;> split <;> simp_all [letter]

/-- The digits of all bases, each at the place that is its value. -/
def digitCharacters : List Char :=
  ['0', '1', '2', '3', '4', '5', '6', '7', '8', '9', 'a', 'b', 'c', 'd', 'e', 'f']

/-- A digit of a base, in either case. -/
def IsDigit (radix : Radix) (c : Char) : Prop :=
  c.toLower ∈ digitCharacters.take radix.base

instance (radix : Radix) (c : Char) : Decidable (radix.IsDigit c) :=
  inferInstanceAs (Decidable (_ ∈ _))

/-- The value of a digit. Any other character counts as 0. -/
def weight (c : Char) : Nat :=
  (digitCharacters.idxOf? c.toLower).getD 0

/-- No character outside ASCII is a digit of any base. -/
theorem not_isDigit {c : Char} (high : 0x7F < c.toNat) (radix : Radix) : ¬ radix.IsDigit c := by
  have low : ∀ c ∈ digitCharacters, c.toNat ≤ 0x7F :=
    List.all_iff_forall_prop.mp (by decide)
  intro digit
  rw [IsDigit, toLower_eq_self high] at digit
  exact absurd (low c (List.mem_of_mem_take digit)) (Nat.not_le_of_lt high)

/-- **A character has a digit value exactly if it is a digit of the base**, and then its weight. -/
theorem digit?_eq (radix : Radix) (c : Char) :
    radix.digit? c = if radix.IsDigit c then some (weight c) else none := by
  induction c using forall_char with
  | ascii code low =>
      revert code
      cases radix <;> decide +kernel
  | others c high =>
      have above (last : Char) (ascii : last.toNat ≤ 0x7F) : ¬ c ≤ last := fun inside =>
        absurd (Nat.le_trans (Char.le_def.mp inside) ascii) (Nat.not_le_of_lt high)
      have outside : hexValue? c = none := by
        rw [hexValue?, if_neg fun both => above '9' (by decide) both.2,
          if_neg fun both => above 'f' (by decide) both.2,
          if_neg fun both => above 'F' (by decide) both.2]
      rw [digit?, outside, if_neg (not_isDigit high radix), Option.filter_none]

/-- The decimal digits are the digits of base ten. -/
theorem isDigit_decimal_iff (c : Char) : c.isDigit = true ↔ decimal.IsDigit c := by
  induction c using forall_char with
  | ascii code low =>
      revert code
      decide +kernel
  | others c high =>
      refine iff_of_false (fun digit => ?_) (not_isDigit high decimal)
      exact absurd (toNat_le_of_isDigit digit) (Nat.not_le_of_lt high)

end Radix

namespace Literal

/-- The digits whose value is not known. -/
def unknownDigits : List Char :=
  ['x', 'X', 'z', 'Z', '?']

/-- A figure of a number: a digit of its base or, where that is allowed, an unknown digit. -/
def IsFigure (radix : Radix) (allowUnknown : Bool) (c : Char) : Prop :=
  radix.IsDigit c ∨ allowUnknown = true ∧ c ∈ unknownDigits

instance (radix : Radix) (allowUnknown : Bool) (c : Char) :
    Decidable (IsFigure radix allowUnknown c) :=
  inferInstanceAs (Decidable (_ ∨ _))

/-- A text of figures and underscores with at least one figure. -/
structure IsNumeral (radix : Radix) (allowUnknown : Bool) (text : List Char) : Prop where
  characters : ∀ c ∈ text, c = '_' ∨ IsFigure radix allowUnknown c
  figure : ∃ c ∈ text, c ≠ '_'

/-- The number that the figures of a text stand for, the last of which counts least. -/
def numberOf (radix : Radix) (text : List Char) : Nat :=
  Nat.ofDigits radix.base ((text.filter (· != '_')).map Radix.weight).reverse

theorem positional_eq (base : Nat) (digits : List Nat) :
    positional base digits = Nat.ofDigits base digits.reverse := by
  rw [Nat.ofDigits_eq_foldr, List.foldr_reverse, positional]
  simp only [Nat.cast_id, Nat.mul_comm base, Nat.add_comm]

theorem isUnknown_iff {c : Char} : Radix.isUnknown c = true ↔ c ∈ unknownDigits := by
  simp [Radix.isUnknown, unknownDigits, or_assoc]

section

variable {radix : Radix} {allowUnknown : Bool}

/-- **A character has a value exactly if it is a figure**: a digit of the base, or an unknown one
where those are allowed. -/
theorem digitValue?_eq_some_iff {c : Char} {digit : Nat} :
    digitValue? radix allowUnknown c = some digit ↔
      IsFigure radix allowUnknown c ∧ digit = Radix.weight c := by
  have valueless : ∀ c ∈ unknownDigits, Radix.weight c = 0 :=
    List.all_iff_forall_prop.mp (by decide)
  unfold digitValue?
  split
  · rename_i unknown
    obtain ⟨allowed, isUnknown⟩ := Bool.and_eq_true_iff.mp unknown
    have member := isUnknown_iff.mp isUnknown
    rw [valueless c member, Option.some_inj, eq_comm]
    exact (and_iff_right (.inr ⟨allowed, member⟩)).symm
  · rename_i known
    have figure : IsFigure radix allowUnknown c ↔ radix.IsDigit c :=
      or_iff_left fun ⟨allowed, member⟩ =>
        known (Bool.and_eq_true_iff.mpr ⟨allowed, isUnknown_iff.mpr member⟩)
    rw [figure, Radix.digit?_eq]
    split
    · rename_i digit
      rw [Option.some_inj, eq_comm]
      exact (and_iff_right digit).symm
    · rename_i other
      exact iff_of_false (fun same => nomatch same) fun both => other both.1

/-- Characters have values exactly if all of them are figures, and then their weights. -/
theorem mapM_digitValue?_eq_some_iff {cs : List Char} {digits : List Nat} :
    cs.mapM (digitValue? radix allowUnknown) = some digits ↔
      (∀ c ∈ cs, IsFigure radix allowUnknown c) ∧ digits = cs.map Radix.weight := by
  induction cs generalizing digits with
  | nil =>
      rw [List.mapM_nil]
      exact ⟨fun same => ⟨List.forall_mem_nil _, (Option.some.inj same).symm⟩,
        fun both => congrArg some both.2.symm⟩
  | cons c cs ih =>
      rw [List.mapM_cons, List.forall_mem_cons, List.map_cons]
      constructor
      · intro read
        obtain ⟨digit, first, read⟩ := Option.bind_eq_some_iff.mp read
        obtain ⟨others, rest, same⟩ := Option.bind_eq_some_iff.mp read
        cases same
        obtain ⟨isFigure, rfl⟩ := digitValue?_eq_some_iff.mp first
        obtain ⟨areFigures, rfl⟩ := ih.mp rest
        exact ⟨⟨isFigure, areFigures⟩, rfl⟩
      · rintro ⟨⟨isFigure, areFigures⟩, rfl⟩
        rw [digitValue?_eq_some_iff.mpr ⟨isFigure, rfl⟩, ih.mpr ⟨areFigures, rfl⟩]
        rfl

/-- A text is a numeral if what is left without underscores is made of figures and not empty. -/
theorem isNumeral_iff {text : List Char} : IsNumeral radix allowUnknown text ↔
    (∀ c ∈ text.filter (· != '_'), IsFigure radix allowUnknown c) ∧
      text.filter (· != '_') ≠ [] := by
  simp only [List.mem_filter, bne_iff_ne, ne_eq, List.filter_eq_nil_iff]
  constructor
  · rintro ⟨characters, c, member, other⟩
    exact ⟨fun c kept => (characters c kept.1).resolve_left kept.2,
      fun none => none c member other⟩
  · rintro ⟨figures, some⟩
    push Not at some
    exact ⟨fun c member => or_iff_not_imp_left.mpr fun other => figures c ⟨member, other⟩, some⟩

theorem IsNumeral.ne_nil {text : List Char} (numeral : IsNumeral radix allowUnknown text) :
    text ≠ [] := by
  obtain ⟨c, member, -⟩ := numeral.figure
  exact List.ne_nil_of_mem member

/-- A numeral has no tick. -/
theorem IsNumeral.tick_not_mem {text : List Char} (numeral : IsNumeral radix allowUnknown text) :
    '\'' ∉ text := by
  intro tick
  rcases numeral.characters _ tick with underscore | figure
  · cases underscore
  · revert figure
    cases radix <;> cases allowUnknown <;> decide

/-- **Numerals are read as their numbers**, and nothing else is read. -/
theorem digits?_eq_some_iff {text : List Char} {number : Nat} :
    digits? radix allowUnknown text = some number ↔
      IsNumeral radix allowUnknown text ∧ number = numberOf radix text := by
  rw [isNumeral_iff, numberOf, ← positional_eq, digits?]
  constructor
  · intro read
    split at read
    · rename_i first rest known
      obtain ⟨figures, same⟩ := mapM_digitValue?_eq_some_iff.mp known
      rw [← same]
      refine ⟨⟨figures, fun none => ?_⟩, (Option.some.inj read).symm⟩
      rw [none] at same
      cases same
    · cases read
  · rintro ⟨⟨figures, some⟩, rfl⟩
    obtain ⟨c, cs, split⟩ := List.exists_cons_of_ne_nil some
    rw [mapM_digitValue?_eq_some_iff.mpr ⟨figures, rfl⟩, split]
    rfl

end

/-- The decimal text of a number stands for the number. -/
theorem numberOf_toDigits (number : Nat) : numberOf .decimal (Nat.toDigits 10 number) = number := by
  have decimal : ∀ c ∈ Nat.toDigits 10 number, c ∈ decimalDigits := fun c member =>
    mem_decimalDigits (Nat.isDigit_of_mem_toDigits (by decide) (by decide) member)
  have known : ∀ c ∈ decimalDigits, (c != '_') = true ∧ Radix.weight c = c.toNat - '0'.toNat :=
    List.all_iff_forall_prop.mp (by decide)
  have whole : (Nat.toDigits 10 number).filter (· != '_') = Nat.toDigits 10 number :=
    List.filter_eq_self.mpr fun c member => (known c (decimal c member)).1
  have weights : (Nat.toDigits 10 number).map Radix.weight =
      (Nat.toDigits 10 number).map fun c => c.toNat - '0'.toNat :=
    List.map_congr_left fun c member => (known c (decimal c member)).2
  have value := @Nat.ofDigitChars_ten_toDigits number
  rw [Nat.ofDigitChars_eq_foldl] at value
  rw [numberOf, whole, weights, ← positional_eq, positional, List.foldl_map]
  simp only [Nat.mul_comm _ 10, Radix.base, value]

end Literal

end MiniVerilog
