import Mathlib.Algebra.BigOperators.Ring.Finset
import MiniVerilog.Proofs.Source.Text
import MiniVerilog.Waveform.Dump

/-! # Codes of signals

A code is a number in base 94 whose digits count from one, so it tells the signal it belongs to
(`MiniVerilog.Waveform.number_code`), and every word of printable characters is the code of some
signal (`MiniVerilog.Waveform.code_number`). The shorter codes come first
(`MiniVerilog.Waveform.code_numbers`).
-/

namespace MiniVerilog.Waveform

/-- The digit that a code starts with. -/
def codeDigit (index : Nat) : Char :=
  Char.ofNat ('!'.toNat + index % 94)

theorem toNat_codeDigit (index : Nat) : (codeDigit index).toNat = 33 + index % 94 := by
  have all : ∀ digit < 94, (Char.ofNat ('!'.toNat + digit)).toNat = 33 + digit := by decide
  exact all (index % 94) (Nat.mod_lt index (by omega))

theorem code_of_lt {index : Nat} (short : index < 94) : code index = [codeDigit index] := by
  rw [code, if_pos short]
  rfl

theorem code_of_le {index : Nat} (long : 94 ≤ index) :
    code index = codeDigit index :: code (index / 94 - 1) := by
  rw [code, if_neg (Nat.not_lt.mpr long)]
  rfl

/-- A printable character that is no blank. -/
def IsDigit (character : Char) : Prop :=
  '!' ≤ character ∧ character ≤ '~'

/-- A text that can be the code of a signal. -/
structure IsCode (text : List Char) : Prop where
  ne_nil : text ≠ []
  digits : ∀ character ∈ text, IsDigit character

theorem isDigit_iff {character : Char} :
    IsDigit character ↔ 33 ≤ character.toNat ∧ character.toNat ≤ 126 :=
  Iff.rfl

theorem isDigit_codeDigit (index : Nat) : IsDigit (codeDigit index) := by
  have digit := Nat.mod_lt index (show 94 > 0 by omega)
  rw [isDigit_iff, toNat_codeDigit]
  omega

/-- A code has a digit at least, and nothing but digits. -/
theorem isCode_code (index : Nat) : IsCode (code index) := by
  induction index using Nat.strongRecOn with
  | _ index ih =>
      rcases Nat.lt_or_ge index 94 with short | long
      · rw [code_of_lt short]
        exact ⟨List.cons_ne_nil _ _, List.forall_mem_singleton.mpr (isDigit_codeDigit index)⟩
      · rw [code_of_le long]
        have others := ih (index / 94 - 1) (by omega)
        exact ⟨List.cons_ne_nil _ _,
          List.forall_mem_cons.mpr ⟨isDigit_codeDigit index, others.digits⟩⟩

/-- A code is a word. -/
theorem isWord_code (index : Nat) : Source.IsWord (String.ofList (code index)) := by
  have isCode := isCode_code index
  refine ⟨fun empty => isCode.ne_nil ?_, ?_⟩
  · rw [← String.toList_ofList (l := code index), empty]
    rfl
  · rw [String.toList_ofList]
    intro character member
    obtain ⟨low, high⟩ := isDigit_iff.mp (isCode.digits character member)
    exact Text.isBlank_eq_false low high

/-- The number that a text stands for, with the lowest digit first. The digits count from one, so
only the empty text stands for zero. -/
def number : List Char → Nat
  | [] => 0
  | character :: text => character.toNat - 32 + 94 * number text

/-- **A code tells the place of its signal.** -/
theorem number_code (index : Nat) : number (code index) = index + 1 := by
  induction index using Nat.strongRecOn with
  | _ index ih =>
      rcases Nat.lt_or_ge index 94 with short | long
      · rw [code_of_lt short, number, number, toNat_codeDigit]
        omega
      · rw [code_of_le long, number, ih (index / 94 - 1) (by omega), toNat_codeDigit]
        omega

/-- **No two signals share a code.** -/
theorem code_injective {first second : Nat} (same : code first = code second) : first = second := by
  have numbers := congrArg number same
  rw [number_code, number_code] at numbers
  exact Nat.succ.inj numbers

/-- A code is counted from one on. -/
theorem number_pos {text : List Char} (isCode : IsCode text) : 0 < number text := by
  obtain ⟨character, others, rfl⟩ := List.exists_cons_of_ne_nil isCode.ne_nil
  have low := (isDigit_iff.mp (isCode.digits character List.mem_cons_self)).1
  rw [number]
  omega

/-- **Every word of digits is the code of a signal.** -/
theorem code_number {text : List Char} (isCode : IsCode text) : code (number text - 1) = text := by
  induction text with
  | nil => exact (isCode.ne_nil rfl).elim
  | cons character text ih =>
      obtain ⟨first, others⟩ := List.forall_mem_cons.mp isCode.digits
      obtain ⟨low, high⟩ := isDigit_iff.mp first
      have digit {index : Nat} (same : 33 + index % 94 = character.toNat) :
          codeDigit index = character :=
        Char.toNat_inj.mp ((toNat_codeDigit index).trans same)
      rw [number]
      by_cases single : text = []
      · rw [single, number, code_of_lt (by omega), digit (by omega)]
      · have more : IsCode text := ⟨single, others⟩
        have positive := number_pos more
        have rest : (character.toNat - 32 + 94 * number text - 1) / 94 - 1 = number text - 1 := by
          omega
        rw [code_of_le (by omega), digit (by omega), rest, ih more]

/-- The number of codes up to a length: each shorter one can be extended in 94 ways, and 94 have one
digit. -/
theorem sum_pow_succ (size : Nat) :
    ∑ length ∈ Finset.range (size + 1), 94 ^ (length + 1) =
      94 * (∑ length ∈ Finset.range size, 94 ^ (length + 1)) + 94 := by
  rw [Finset.sum_range_succ', Finset.mul_sum, zero_add, pow_one]
  exact congrArg (· + 94) (Finset.sum_congr rfl fun length _ => pow_succ' 94 (length + 1))

/-- A text is as short as its number is small. -/
theorem number_le_iff {text : List Char} (digits : ∀ character ∈ text, IsDigit character)
    (size : Nat) :
    number text ≤ ∑ length ∈ Finset.range size, 94 ^ (length + 1) ↔ text.length ≤ size := by
  induction text generalizing size with
  | nil => exact iff_of_true (Nat.zero_le _) (Nat.zero_le _)
  | cons character text ih =>
      obtain ⟨first, others⟩ := List.forall_mem_cons.mp digits
      obtain ⟨low, high⟩ := isDigit_iff.mp first
      rw [number, List.length_cons]
      cases size with
      | zero =>
          rw [Finset.sum_range_zero]
          omega
      | succ size =>
          rw [sum_pow_succ, Nat.add_le_add_iff_right, ← ih others size]
          omega

/-- **The codes number the words of digits**: no two signals share a code, every such word is the
code of a signal, and the codes of at most `size` digits are those of the first
`94 + 94 ^ 2 + ... + 94 ^ size` signals. -/
theorem code_numbers :
    (∀ first second, code first = code second ↔ first = second) ∧
      (∀ text, (∃ index, code index = text) ↔ IsCode text) ∧
      ∀ index size, (code index).length ≤ size ↔
        index < ∑ length ∈ Finset.range size, 94 ^ (length + 1) := by
  refine ⟨fun first second => ⟨code_injective, congrArg code⟩, fun text => ⟨?_, ?_⟩, ?_⟩
  · rintro ⟨index, rfl⟩
    exact isCode_code index
  · exact fun isCode => ⟨number text - 1, code_number isCode⟩
  · intro index size
    rw [← number_le_iff (isCode_code index).digits, number_code]
    exact Nat.succ_le_iff

/-- The codes get a digit more at the 95th signal and again after 94 + 94 ^ 2 signals. -/
example : [93, 94, 8929, 8930].map (fun index => String.ofList (code index)) =
    ["~", "!!", "~~", "!!!"] := by
  cbv

end MiniVerilog.Waveform
