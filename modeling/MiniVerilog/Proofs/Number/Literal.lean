import Mathlib.Data.List.TakeWhile
import MiniVerilog.Proofs.Number.Numeral
import MiniVerilog.Proofs.Text.Blank

/-! # The grammar of literals

Which texts are literals, and which integer each of them stands for, is said by a grammar
(`MiniVerilog.Literal.Denotes`). The texts of this grammar are read with these integers, and no
other text is read as a literal (`MiniVerilog.Literal.value?_denotes`).
-/

namespace MiniVerilog

namespace Literal

/-- The integer that the low 64 bits of a number stand for in two's complement. -/
def wrapped (number : Nat) : Int :=
  (number : Int).bmod (2 ^ 64)

/-- The integer of a number that is written with a size: a size from 1 to 63 keeps that many low
bits. -/
def sized (size : Int) (number : Nat) : Int :=
  if 1 ≤ size ∧ size ≤ 63 then (number % 2 ^ size.toNat : Nat) else wrapped number

/-- What may stand between the tick of a literal and its base letter. -/
def signMarks : List (List Char) :=
  [[], ['s'], ['S']]

/-- A text that starts with the base letter of a literal, in either case, perhaps after a sign
mark, and goes on with the given characters. -/
def Opens (radix : Radix) (text digits : List Char) : Prop :=
  ∃ mark ∈ signMarks, ∃ letter : Char, letter.toLower = radix.letter ∧
    text = mark ++ letter :: digits

/-- A decimal digit, and decimal digits and underscores after it. -/
structure IsPlain (text : List Char) : Prop where
  start : ∃ c ∈ text.head?, Radix.decimal.IsDigit c
  characters : ∀ c ∈ text, c = '_' ∨ Radix.decimal.IsDigit c

/-- The literals, and the integer that each of them stands for. -/
inductive Denotes : List Char → Int → Prop
  | plain {text : List Char} (isPlain : IsPlain text) :
      Denotes text (wrapped (numberOf .decimal text))
  | unsized {radix : Radix} {text digits : List Char} (opens : Opens radix text digits)
      (numeral : IsNumeral radix true digits) :
      Denotes ('\'' :: text) (wrapped (numberOf radix digits))
  | sized {radix : Radix} {size text digits : List Char} (isSize : IsNumeral .decimal false size)
      (opens : Opens radix text digits) (numeral : IsNumeral radix true digits) :
      Denotes (size ++ '\'' :: text)
        (sized (wrapped (numberOf .decimal size)) (numberOf radix digits))

theorem dropSignMark_eq_self {c : Char} {cs : List Char} (lower : c ≠ 's') (upper : c ≠ 'S') :
    dropSignMark (c :: cs) = c :: cs :=
  dropSignMark.eq_3 _ (fun _ same => lower (List.cons.inj same).1)
    fun _ same => upper (List.cons.inj same).1

/-- **A text opens with a base letter** if one is left at the front when the sign mark is
dropped. -/
theorem opens_iff {radix : Radix} {text digits : List Char} : Opens radix text digits ↔
    ∃ letter, dropSignMark text = letter :: digits ∧ Radix.ofLetter? letter = some radix := by
  simp only [Radix.ofLetter?_eq_some_iff]
  constructor
  · rintro ⟨mark, isMark, letter, isLetter, rfl⟩
    refine ⟨letter, ?_, isLetter⟩
    rw [signMarks, List.mem_cons, List.mem_cons, List.mem_singleton] at isMark
    rcases isMark with rfl | rfl | rfl
    · apply dropSignMark_eq_self <;> rintro rfl <;> cases radix <;> cases isLetter
    · rfl
    · rfl
  · rintro ⟨letter, dropped, isLetter⟩
    unfold dropSignMark at dropped
    split at dropped
    · exact ⟨['s'], by decide, letter, isLetter, congrArg _ dropped⟩
    · exact ⟨['S'], by decide, letter, isLetter, congrArg _ dropped⟩
    · exact ⟨[], by decide, letter, isLetter, dropped⟩

/-- **A based literal is read** if its base letter has a numeral after it, and a numeral in front
of the tick unless there is no size. -/
theorem based?_eq_some_iff {size text : List Char} {value : Value} :
    based? size text = some value ↔
      ∃ radix digits, Opens radix text digits ∧ IsNumeral radix true digits ∧
        (size = [] ∧ value = Int64.ofNat (numberOf radix digits) ∨
          IsNumeral .decimal false size ∧
            value = Value.truncate (Int64.ofNat (numberOf .decimal size)).toInt.toNat
              (Int64.ofNat (numberOf radix digits))) := by
  simp only [opens_iff]
  unfold based?
  constructor
  · intro read
    split at read
    · cases read
    · rename_i letter digits dropped
      obtain ⟨radix, known, read⟩ := Option.bind_eq_some_iff.mp read
      obtain ⟨number, numeral, read⟩ := Option.bind_eq_some_iff.mp read
      obtain ⟨isNumeral, rfl⟩ := digits?_eq_some_iff.mp numeral
      refine ⟨radix, digits, ⟨letter, dropped, known⟩, isNumeral, ?_⟩
      split at read
      · rename_i unsized
        exact .inl ⟨List.isEmpty_iff.mp unsized, (Option.some.inj read).symm⟩
      · obtain ⟨width, isSize, read⟩ := Option.bind_eq_some_iff.mp read
        obtain ⟨sizeNumeral, rfl⟩ := digits?_eq_some_iff.mp isSize
        exact .inr ⟨sizeNumeral, (Option.some.inj read).symm⟩
  · rintro ⟨radix, digits, ⟨letter, dropped, known⟩, numeral, value⟩
    rw [dropped]
    simp only [known, digits?_eq_some_iff.mpr ⟨numeral, rfl⟩, Option.bind_eq_bind,
      Option.bind_some]
    rcases value with ⟨rfl, rfl⟩ | ⟨isSize, rfl⟩
    · rfl
    · have some : size.isEmpty = false := List.isEmpty_eq_false_iff.mpr isSize.ne_nil
      simp only [some, Bool.false_eq_true, ↓reduceIte, digits?_eq_some_iff.mpr ⟨isSize, rfl⟩,
        Option.bind_some]
      rfl

theorem isFigure_decimal_iff {c : Char} : IsFigure .decimal false c ↔ Radix.decimal.IsDigit c :=
  or_iff_left fun both => Bool.false_ne_true both.1

/-- Decimal digits with underscores are a decimal numeral. -/
theorem IsPlain.isNumeral {text : List Char} (isPlain : IsPlain text) :
    IsNumeral .decimal false text := by
  obtain ⟨c, first, digit⟩ := isPlain.start
  refine ⟨fun c member => (isPlain.characters c member).imp_right isFigure_decimal_iff.mpr, c,
    List.mem_of_head? first, ?_⟩
  rintro rfl
  exact absurd digit (by decide)

/-- **A plain number is read** if it starts with a digit. -/
theorem plain?_eq_some_iff {text : List Char} {value : Value} :
    plain? text = some value ↔ IsPlain text ∧ value = Int64.ofNat (numberOf .decimal text) := by
  unfold plain?
  constructor
  · intro read
    split at read
    · rename_i start
      obtain ⟨c, first, digit⟩ := (Option.any_eq_true _ _).mp start
      obtain ⟨number, numeral, rfl⟩ := Option.map_eq_some_iff.mp read
      obtain ⟨⟨characters, -⟩, rfl⟩ := digits?_eq_some_iff.mp numeral
      refine ⟨⟨⟨c, first, (Radix.isDigit_decimal_iff c).mp digit⟩, fun c member => ?_⟩, rfl⟩
      exact (characters c member).imp_right isFigure_decimal_iff.mp
    · cases read
  · rintro ⟨isPlain, rfl⟩
    obtain ⟨c, first, digit⟩ := isPlain.start
    have start : text.head?.any Char.isDigit = true :=
      (Option.any_eq_true _ _).mpr ⟨c, first, (Radix.isDigit_decimal_iff c).mpr digit⟩
    rw [if_pos start, digits?_eq_some_iff.mpr ⟨isPlain.isNumeral, rfl⟩, Option.map_some]

/-- A text with a tick is read as a based literal. -/
theorem parse?_of_tick {text size rest : List Char}
    (trimmed : Text.trim text = size ++ '\'' :: rest) (noTick : '\'' ∉ size) :
    parse? text = based? size rest := by
  rw [parse?]
  simp only [trimmed, Text.takeWhile_mark noTick, Text.dropWhile_mark noTick]

/-- A text without a tick is read as a plain number. -/
theorem parse?_of_plain {text : List Char} (noTick : '\'' ∉ Text.trim text) :
    parse? text = plain? (Text.trim text) := by
  have all : (Text.trim text).dropWhile (· != '\'') = [] :=
    List.dropWhile_eq_nil_iff.mpr fun c member =>
      bne_iff_ne.mpr (ne_of_mem_of_not_mem member noTick)
  rw [parse?]
  simp only [all]

/-- A number is written as a plain literal. -/
theorem isPlain_toDigits (number : Nat) : IsPlain (Nat.toDigits 10 number) := by
  have digit (c : Char) (member : c ∈ Nat.toDigits 10 number) : Radix.decimal.IsDigit c :=
    (Radix.isDigit_decimal_iff c).mp
      (Nat.isDigit_of_mem_toDigits (by decide) (by decide) member)
  obtain ⟨first, rest, digits⟩ := List.exists_cons_of_ne_nil (@Nat.toDigits_ne_nil number 10)
  refine ⟨⟨first, ?_, digit first ?_⟩, fun c member => .inr (digit c member)⟩
  · rw [digits, List.head?_cons, Option.mem_some_iff]
  · exact digits ▸ List.mem_cons_self

/-- The decimal text of a number is read as the number. -/
theorem digits?_toDigits (number : Nat) :
    digits? .decimal false (Nat.toDigits 10 number) = some number :=
  digits?_eq_some_iff.mpr ⟨(isPlain_toDigits number).isNumeral, (numberOf_toDigits number).symm⟩

/-- **The decimal text of a number is read back**, up to 64 bits. -/
theorem value?_toString (number : Nat) :
    value? (toString number) = some (Int64.ofNat number) := by
  have trimmed : Text.trim (toString number).toList = Nat.toDigits 10 number := by
    rw [Text.trim_eq_self
      (fun _ first => Text.isBlank_of_mem_toString (List.mem_of_head? first))
      fun _ last => Text.isBlank_of_mem_toString (List.mem_of_getLast? last),
      Nat.toString_eq_repr, Nat.toList_repr]
  have noTick := (isPlain_toDigits number).isNumeral.tick_not_mem
  rw [value?, parse?_of_plain (trimmed ▸ noTick), trimmed]
  exact plain?_eq_some_iff.mpr ⟨isPlain_toDigits number, by rw [numberOf_toDigits]⟩

theorem toInt_ofNat (number : Nat) : (Int64.ofNat number).toInt = wrapped number :=
  Int64.toInt_ofNat'

/-- Truncating to a size keeps that many low bits if the size is from 1 to 63, and all of them
otherwise. -/
theorem toInt_truncate (size number : Nat) :
    (Value.truncate (Int64.ofNat size).toInt.toNat (Int64.ofNat number)).toInt =
      sized (wrapped size) number := by
  rw [toInt_ofNat, Value.truncate, sized]
  generalize wrapped size = size
  by_cases narrow : 1 ≤ size ∧ size ≤ 63
  · have bounds : 0 < size.toNat ∧ size.toNat < 64 := by omega
    have low : number % 2 ^ 64 % 2 ^ size.toNat = number % 2 ^ size.toNat :=
      Nat.mod_mod_of_dvd number (Nat.pow_dvd_pow 2 (Nat.le_of_lt bounds.2))
    have bound : number % 2 ^ size.toNat < 2 ^ 63 :=
      Nat.lt_of_lt_of_le (Nat.mod_lt _ (Nat.two_pow_pos _))
        (Nat.pow_le_pow_right Nat.zero_lt_two (Nat.le_of_lt_succ bounds.2))
    rw [if_pos bounds, if_pos narrow, Int64.toUInt64_ofNat', UInt64.toNat_ofNat', Nat.pow_eq, low,
      Int64.toInt_ofNat_of_lt bound]
  · have wide : ¬ (0 < size.toNat ∧ size.toNat < 64) := by omega
    rw [if_neg wide, if_neg narrow, toInt_ofNat]

/-- **What is read as a literal is one and stands for the value**, by the cases of the reader. -/
theorem denotes_of_parse? {text : List Char} {value : Value} (read : parse? text = some value) :
    Denotes (Text.trim text) value.toInt := by
  by_cases tick : '\'' ∈ Text.trim text
  · obtain ⟨size, rest, trimmed, noTick⟩ := List.eq_append_cons_of_mem tick
    rw [parse?_of_tick trimmed noTick] at read
    obtain ⟨radix, digits, opens, numeral, ⟨rfl, rfl⟩ | ⟨isSize, rfl⟩⟩ :=
      based?_eq_some_iff.mp read
    · rw [trimmed, toInt_ofNat]
      exact .unsized opens numeral
    · rw [trimmed, toInt_truncate]
      exact .sized isSize opens numeral
  · rw [parse?_of_plain tick] at read
    obtain ⟨isPlain, rfl⟩ := plain?_eq_some_iff.mp read
    rw [toInt_ofNat]
    exact .plain isPlain

/-- **Every literal is read**, as the integer that it stands for. -/
theorem parse?_of_denotes {text : List Char} {number : Int}
    (denotes : Denotes (Text.trim text) number) :
    ∃ value, parse? text = some value ∧ value.toInt = number := by
  generalize trimmed : Text.trim text = literal at denotes
  cases denotes with
  | plain isPlain =>
      have noTick : '\'' ∉ Text.trim text := trimmed ▸ isPlain.isNumeral.tick_not_mem
      refine ⟨_, ?_, toInt_ofNat _⟩
      rw [parse?_of_plain noTick, trimmed]
      exact plain?_eq_some_iff.mpr ⟨isPlain, rfl⟩
  | unsized opens numeral =>
      refine ⟨_, ?_, toInt_ofNat _⟩
      rw [@parse?_of_tick text [] _ trimmed List.not_mem_nil]
      exact based?_eq_some_iff.mpr ⟨_, _, opens, numeral, .inl ⟨rfl, rfl⟩⟩
  | sized isSize opens numeral =>
      refine ⟨_, ?_, toInt_truncate _ _⟩
      rw [parse?_of_tick trimmed isSize.tick_not_mem]
      exact based?_eq_some_iff.mpr ⟨_, _, opens, numeral, .inr ⟨isSize, rfl⟩⟩

/-- **A text is read as a literal exactly if, without the blanks around it, it is one of the
grammar**, and it is read as the integer that the literal stands for. In particular every number
below `2 ^ 63` is read from its decimal text. -/
theorem value?_denotes (text : String) :
    ((value? text).isSome = true ↔ ∃ number, Denotes (Text.trim text.toList) number) ∧
      (∀ number, (value? text).map Int64.toInt = some number ↔
        Denotes (Text.trim text.toList) number) ∧
      ∀ number : Nat, number < 2 ^ 63 →
        (value? (toString number)).map Int64.toInt = some (number : Int) := by
  have exactly (number : Int) : (value? text).map Int64.toInt = some number ↔
      Denotes (Text.trim text.toList) number := by
    rw [Option.map_eq_some_iff]
    constructor
    · rintro ⟨value, read, rfl⟩
      exact denotes_of_parse? read
    · exact parse?_of_denotes
  refine ⟨?_, exactly, fun number bound => ?_⟩
  · rw [← Option.isSome_map, Option.isSome_iff_exists]
    exact exists_congr exactly
  · rw [value?_toString, Option.map_some, Int64.toInt_ofNat_of_lt bound]

/-- A literal between blanks with a sign mark, an unknown digit and more digits than its size has
bits, and the largest value. -/
theorem value?_denotes_narrow :
    (value? " 3'sB1x_11\n").map Int64.toInt = some 3 ∧
      (value? (toString (2 ^ 63 - 1))).map Int64.toInt = some ((2 ^ 63 - 1 : Nat) : Int) := by
  have isSize : IsNumeral .decimal false ['3'] :=
    ⟨List.all_iff_forall_prop.mp (by decide), '3', by decide, by decide⟩
  have opens : Opens .binary "sB1x_11".toList "1x_11".toList :=
    ⟨['s'], by decide, 'B', by decide, by decide⟩
  have numeral : IsNumeral .binary true "1x_11".toList :=
    ⟨List.all_iff_forall_prop.mp (by decide), '1', by decide, by decide⟩
  have trimmed : Text.trim " 3'sB1x_11\n".toList = ['3'] ++ '\'' :: "sB1x_11".toList := by decide
  have kept : sized (wrapped (numberOf .decimal ['3'])) (numberOf .binary "1x_11".toList) = 3 := by
    decide
  have denotes := Denotes.sized isSize opens numeral
  rw [kept, ← trimmed] at denotes
  exact ⟨((value?_denotes _).2.1 3).mpr denotes,
    (value?_denotes "").2.2 (2 ^ 63 - 1) (by decide)⟩

end Literal

end MiniVerilog
