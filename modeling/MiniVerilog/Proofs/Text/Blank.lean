import MiniVerilog.Text.Blank

/-! # Texts that are trimmed and split

A text without blanks at its ends is not trimmed, and a text is split where a mark first stands.
-/

namespace MiniVerilog.Text

/-- No printable character of ASCII but the space is blank. -/
theorem isBlank_eq_false {c : Char} (low : '!'.toNat ≤ c.toNat) (high : c.toNat ≤ '~'.toNat) :
    isBlank c = false := by
  have low : 33 ≤ c.toNat := low
  have high : c.toNat ≤ 126 := high
  rw [isBlank, List.any_eq_false]
  rintro ⟨first, last⟩ range inside
  rw [Bool.and_eq_true, decide_eq_true_eq, decide_eq_true_eq] at inside
  have outside : ∀ range ∈ blankRanges, range.2 < 33 ∨ 126 < range.1 := by decide
  have := outside (first, last) range
  omega

/-- A number that is written in decimal has no blank in it. -/
theorem isBlank_of_mem_toString {number : Nat} {c : Char}
    (member : c ∈ (toString number).toList) : isBlank c = false := by
  have digits : (toString number).toList = Nat.toDigits 10 number := Nat.toList_repr
  rw [digits] at member
  have digit := Nat.isDigit_of_mem_toDigits (by decide) (by decide) member
  rw [Char.isDigit, Bool.and_eq_true, decide_eq_true_eq, decide_eq_true_eq] at digit
  have low : 48 ≤ c.toNat := digit.1
  have high : c.toNat ≤ 57 := digit.2
  exact isBlank_eq_false (Nat.le_trans (by decide) low) (Nat.le_trans high (by decide))

/-- Nothing is dropped if the first character does not have the property. -/
theorem dropWhile_eq_self {property : Char → Bool} {cs : List Char}
    (other : ∀ c ∈ cs.head?, property c = false) : cs.dropWhile property = cs := by
  cases cs with
  | nil => rfl
  | cons c cs => rw [List.dropWhile_cons_of_neg (ne_true_of_eq_false (other c rfl))]

/-- A visible character stays in front when the end is trimmed. -/
theorem trimEnd_cons {c : Char} (visible : isBlank c = false) (cs : List Char) :
    trimEnd (c :: cs) = c :: trimEnd cs := by
  rw [trimEnd, List.reverse_cons, List.dropWhile_append]
  split
  · rename_i none
    rw [List.dropWhile_cons_of_neg (ne_true_of_eq_false visible), trimEnd,
      List.isEmpty_iff.mp none]
    rfl
  · rw [List.reverse_append]
    rfl

/-- A text whose first and last characters are not blank is not trimmed. -/
theorem trim_eq_self {cs : List Char} (first : ∀ c ∈ cs.head?, isBlank c = false)
    (last : ∀ c ∈ cs.getLast?, isBlank c = false) : trim cs = cs := by
  rw [trim, trimStart, dropWhile_eq_self first, trimEnd, dropWhile_eq_self, List.reverse_reverse]
  rw [List.head?_reverse]
  exact last

section Marks

variable {mark : Char} {before : List Char} (noMark : mark ∉ before) (after : List Char)
include noMark

/-- A text is taken up to the first mark. -/
theorem takeWhile_mark : (before ++ mark :: after).takeWhile (· != mark) = before := by
  have kept : ∀ c ∈ before, (c != mark) = true := fun c member =>
    bne_iff_ne.mpr fun same => noMark (same ▸ member)
  have ends : ¬ (mark != mark) = true := ne_true_of_eq_false (bne_self_eq_false mark)
  rw [List.takeWhile_append_of_pos kept, List.takeWhile_cons_of_neg (p := (· != mark)) ends,
    List.append_nil]

/-- A text is dropped up to the first mark. -/
theorem dropWhile_mark : (before ++ mark :: after).dropWhile (· != mark) = mark :: after := by
  have dropped : ∀ c ∈ before, (c != mark) = true := fun c member =>
    bne_iff_ne.mpr fun same => noMark (same ▸ member)
  have ends : ¬ (mark != mark) = true := ne_true_of_eq_false (bne_self_eq_false mark)
  rw [List.dropWhile_append_of_pos dropped, List.dropWhile_cons_of_neg (p := (· != mark)) ends]

end Marks

end MiniVerilog.Text
