import MiniVerilog.Proofs.Number.Literal
import MiniVerilog.Proofs.Token.Lexeme

/-! # Numbers among the tokens

A number is cut out of a line by other rules than it is read by: the one looks at the characters
that may go on, the other at the whole text. Still every number of a source text is read, but for
those that end before their digits (`MiniVerilog.Token.value?_eq_none_iff`).
-/

namespace MiniVerilog

namespace Literal

/-- A tick of the text has no number after it: there is no base letter, or nothing but underscores
follows the base letter. -/
def IsUnfinished (text : List Char) : Prop :=
  ∃ before after, text = before ++ '\'' :: after ∧
    ((∀ radix digits, ¬ Opens radix after digits) ∨
      ∃ radix digits, Opens radix after digits ∧ ∀ c ∈ digits, c = '_')

/-- The base letter and what follows it are told apart. -/
theorem Opens.unique {first second : Radix} {text digits others : List Char}
    (opens : Opens first text digits) (again : Opens second text others) :
    first = second ∧ digits = others := by
  obtain ⟨letter, dropped, known⟩ := opens_iff.mp opens
  obtain ⟨other, droppedAgain, knownAgain⟩ := opens_iff.mp again
  obtain ⟨rfl, rfl⟩ := List.cons.inj (dropped.symm.trans droppedAgain)
  exact ⟨Option.some.inj (known.symm.trans knownAgain), rfl⟩

/-- A sign mark alone opens with no base letter. -/
theorem not_opens_signMark {mark : List Char} (isMark : mark ∈ signMarks) (radix : Radix)
    (digits : List Char) : ¬ Opens radix mark digits := by
  intro opens
  obtain ⟨letter, dropped, -⟩ := opens_iff.mp opens
  have none : ∀ mark ∈ signMarks, dropSignMark mark = [] := by decide
  rw [none mark isMark] at dropped
  cases dropped

/-- A part after a tick has no value exactly if it does not open with a base letter that a numeral
follows. -/
theorem based?_eq_none_iff {size text : List Char}
    (isSize : size = [] ∨ IsNumeral .decimal false size) :
    based? size text = none ↔
      ∀ radix digits, Opens radix text digits → ¬ IsNumeral radix true digits := by
  rw [Option.eq_none_iff_forall_ne_some]
  constructor
  · intro unread radix digits opens numeral
    rcases isSize with none | isSize
    · exact unread _ (based?_eq_some_iff.mpr ⟨radix, digits, opens, numeral, .inl ⟨none, rfl⟩⟩)
    · exact unread _ (based?_eq_some_iff.mpr ⟨radix, digits, opens, numeral, .inr ⟨isSize, rfl⟩⟩)
  · intro none value read
    obtain ⟨radix, digits, opens, numeral, -⟩ := based?_eq_some_iff.mp read
    exact none radix digits opens numeral

/-- Characters that a base admits are a numeral if one of them is not an underscore. -/
theorem isNumeral_of_admits {radix : Radix} {digits : List Char}
    (admitted : ∀ c ∈ digits, radix.admits c = true) :
    IsNumeral radix true digits ↔ ∃ c ∈ digits, c ≠ '_' := by
  refine ⟨IsNumeral.figure, fun figure => ⟨fun c member => ?_, figure⟩⟩
  have known := admitted c member
  rw [Radix.admits, Bool.or_eq_true, Bool.or_eq_true, beq_iff_eq, isUnknown_iff,
    Radix.digit?_eq] at known
  rcases known with (digit | unknown) | underscore
  · split at digit
    · rename_i isDigit
      exact .inr (.inl isDigit)
    · cases digit
  · exact .inr (.inr ⟨rfl, unknown⟩)
  · exact .inl underscore

end Literal

namespace Token

open Literal (Opens signMarks IsUnfinished IsPlain)

/-- What a literal can have after its tick: a sign mark alone, or a base letter with characters
that the base admits. -/
def IsBasedPart (text : List Char) : Prop :=
  text ∈ signMarks ∨
    ∃ radix digits, Opens radix text digits ∧ ∀ c ∈ digits, radix.admits c = true

/-- What a base letter takes is nothing, or the letter with characters that the base admits. -/
theorem take_letterLength (cs : List Char) : cs.take (letterLength cs) = [] ∨
    ∃ radix letter digits, cs.take (letterLength cs) = letter :: digits ∧
      Radix.ofLetter? letter = some radix ∧ ∀ c ∈ digits, radix.admits c = true := by
  cases cs with
  | nil => exact .inl rfl
  | cons letter rest =>
      cases known : Radix.ofLetter? letter with
      | none =>
          rw [letterLength, known]
          exact .inl rfl
      | some radix =>
          refine .inr ⟨radix, letter, rest.takeWhile radix.admits, ?_, known,
            fun c => List.mem_takeWhile_imp⟩
          simp only [letterLength, known, Nat.add_comm 1, List.take_succ_cons]
          rw [← List.prefix_iff_eq_take.mp (List.takeWhile_prefix radix.admits)]

/-- A sign mark and what the letter after it takes. -/
theorem isBasedPart_append {mark : List Char} (isMark : mark ∈ signMarks) (cs : List Char) :
    IsBasedPart (mark ++ cs.take (letterLength cs)) := by
  rcases take_letterLength cs with none | ⟨radix, letter, digits, taken, known, admitted⟩
  · rw [none, List.append_nil]
    exact .inl isMark
  · rw [taken]
    exact .inr ⟨radix, digits,
      ⟨mark, isMark, letter, Radix.ofLetter?_eq_some_iff.mp known, rfl⟩, admitted⟩

/-- What is taken after a tick is what a literal can have there. -/
theorem isBasedPart_take (cs : List Char) : IsBasedPart (cs.take (basedLength cs)) := by
  by_cases unsigned : cs.head?.any isSignMark = false
  · rw [basedLength_of_not_isSignMark unsigned]
    exact isBasedPart_append List.mem_cons_self cs
  · cases cs with
    | nil => exact (unsigned rfl).elim
    | cons c cs =>
        have sign : isSignMark c = true := Bool.of_not_eq_false unsigned
        have isMark : [c] ∈ signMarks := by
          rw [isSignMark, Bool.or_eq_true, beq_iff_eq, beq_iff_eq] at sign
          rcases sign with rfl | rfl <;> decide
        rw [basedLength_cons_of_isSignMark sign, Nat.add_comm, List.take_succ_cons]
        exact isBasedPart_append isMark cs

/-- The part after a tick has no further tick. -/
theorem IsBasedPart.tick_not_mem {text : List Char} (based : IsBasedPart text) :
    '\'' ∉ text := by
  rcases based with isMark | ⟨radix, digits, ⟨mark, isMark, letter, isLetter, rfl⟩, admitted⟩
  · have none : ∀ mark ∈ signMarks, '\'' ∉ mark := by decide
    exact none text isMark
  · have none : ∀ mark ∈ signMarks, '\'' ∉ mark := by decide
    intro tick
    rcases List.mem_append.mp tick with inMark | tick
    · exact none mark isMark inMark
    rcases List.mem_cons.mp tick with rfl | inDigits
    · cases radix <;> cases isLetter
    · have other := admitted _ inDigits
      cases radix <;> cases other

/-- The text of a number as it is cut out of a line. -/
inductive IsNumberText : List Char → Prop
  | plain {text : List Char} (isPlain : IsPlain text) : IsNumberText text
  | based {size text : List Char} (isSize : size = [] ∨ IsPlain size) (part : IsBasedPart text) :
      IsNumberText (size ++ '\'' :: text)

/-- A digit with what the size of a literal takes after it is a plain literal. -/
theorem isPlain_cons {first : Char} (digit : first.isDigit = true) (cs : List Char) :
    IsPlain (first :: cs.takeWhile isSizeChar) := by
  have isDigit := (Radix.isDigit_decimal_iff first).mp digit
  refine ⟨⟨first, rfl, isDigit⟩, List.forall_mem_cons.mpr ⟨.inr isDigit, fun c taken => ?_⟩⟩
  have sizeChar : isSizeChar c = true := List.mem_takeWhile_imp taken
  rw [isSizeChar, Bool.or_eq_true, beq_iff_eq] at sizeChar
  exact sizeChar.symm.imp_right (Radix.isDigit_decimal_iff c).mp

/-- From the tick on nothing is taken, or the tick with what a literal can have after it. -/
theorem take_tickLength (cs : List Char) : cs.take (tickLength cs) = [] ∨
    ∃ text, IsBasedPart text ∧ cs.take (tickLength cs) = '\'' :: text := by
  cases cs with
  | nil => exact .inl rfl
  | cons tick rest =>
      rw [tickLength]
      split
      · rename_i marked
        obtain rfl : tick = '\'' := beq_iff_eq.mp (Bool.and_eq_true_iff.mp marked).1
        rw [Nat.add_comm, List.take_succ_cons]
        exact .inr ⟨_, isBasedPart_take rest, rfl⟩
      · exact .inl rfl

/-- Only at a digit, or at a tick, a number starts. -/
theorem Start.of_kind_number {first : Char} {rest : List Char}
    (number : (pieceAt first rest).kind = some .number) :
    first.isDigit = true ∧ (pieceAt first rest).following = numberLength rest ∨
      first = '\'' ∧ (pieceAt first rest).following = basedLength rest := by
  rw [pieceAt_eq] at number ⊢
  have isStart := isStartOf_of_kind number
  cases start : of first rest.head? with
  | number =>
      unfold of at start
      split_ifs at start
      exact .inl ⟨by assumption, rfl⟩
  | based =>
      unfold of at start
      split_ifs at start with _ _ _ _ _ marked
      exact .inr ⟨beq_iff_eq.mp (Bool.and_eq_true_iff.mp marked).1, rfl⟩
  | name =>
      rw [start] at isStart
      rcases isStart with same | ⟨word, same⟩ <;> cases same
  | separator | lineComment | blockComment | string | operator =>
      rw [start] at isStart
      cases isStart

/-- **A number that is cut out of a line** is plain, or has a base letter or a sign mark after its
tick. -/
theorem isNumberText_pieceAt {first : Char} {rest : List Char}
    (number : (pieceAt first rest).kind = some .number) :
    IsNumberText (first :: rest.take (pieceAt first rest).following) := by
  rcases Start.of_kind_number number with ⟨digit, length⟩ | ⟨rfl, length⟩
  · have isPlain := isPlain_cons digit rest
    rw [length, take_numberLength]
    rcases take_tickLength (rest.dropWhile isSizeChar) with none | ⟨text, part, taken⟩
    · rw [none, List.append_nil]
      exact .plain isPlain
    · rw [taken]
      exact .based (.inr isPlain) part
  · rw [length]
    exact .based (.inl rfl) (isBasedPart_take rest)

/-- The tick of a number is its only one. -/
theorem isUnfinished_append {size text : List Char} (noSize : '\'' ∉ size) (noText : '\'' ∉ text) :
    IsUnfinished (size ++ '\'' :: text) ↔ (∀ radix digits, ¬ Opens radix text digits) ∨
      ∃ radix digits, Opens radix text digits ∧ ∀ c ∈ digits, c = '_' := by
  constructor
  · rintro ⟨before, after, split, unfinished⟩
    obtain ⟨-, -, rfl⟩ := (List.append_cons_inj_of_notMem noSize noText).mp split
    exact unfinished
  · intro unfinished
    exact ⟨size, text, rfl, unfinished⟩

/-- **A part after a tick has no value exactly if it is unfinished**: it has no base letter, or
nothing but underscores after it. -/
theorem IsBasedPart.based?_eq_none_iff {size text : List Char} (part : IsBasedPart text)
    (isSize : size = [] ∨ IsPlain size) :
    Literal.based? size text = none ↔ (∀ radix digits, ¬ Opens radix text digits) ∨
      ∃ radix digits, Opens radix text digits ∧ ∀ c ∈ digits, c = '_' := by
  rw [Literal.based?_eq_none_iff (isSize.imp_right IsPlain.isNumeral)]
  rcases part with isMark | ⟨radix, digits, opens, admitted⟩
  · have closed := Literal.not_opens_signMark isMark
    exact iff_of_true (fun radix digits opens => (closed radix digits opens).elim) (.inl closed)
  · constructor
    · intro unread
      have none := mt (Literal.isNumeral_of_admits admitted).mpr (unread radix digits opens)
      refine .inr ⟨radix, digits, opens, fun c member => ?_⟩
      by_contra other
      exact none ⟨c, member, other⟩
    · rintro (closed | ⟨_, others, again, underscores⟩) radix' digits' opens' numeral
      · exact closed radix digits opens
      · obtain ⟨-, rfl⟩ := again.unique opens'
        obtain ⟨c, member, other⟩ := numeral.figure
        exact other (underscores c member)

/-- **A number text is no literal exactly if it is unfinished.** -/
theorem IsNumberText.parse?_eq_none_iff {text : List Char} (number : IsNumberText text)
    (trimmed : Text.trim text = text) : Literal.parse? text = none ↔ IsUnfinished text := by
  cases number with
  | plain isPlain =>
      have noTick := isPlain.isNumeral.tick_not_mem
      have read := Literal.plain?_eq_some_iff.mpr ⟨isPlain, rfl⟩
      rw [Literal.parse?_of_plain (trimmed.symm ▸ noTick), trimmed, read]
      refine iff_of_false (fun same => nomatch same) ?_
      rintro ⟨before, after, rfl, -⟩
      exact noTick (List.mem_append_right before List.mem_cons_self)
  | based isSize part =>
      have noTick := isSize.elim (fun none => none ▸ List.not_mem_nil)
        fun isPlain => isPlain.isNumeral.tick_not_mem
      rw [Literal.parse?_of_tick trimmed noTick, part.based?_eq_none_iff isSize,
        isUnfinished_append noTick part.tick_not_mem]

/-- **The numbers of a source text are read**, but for those that end before their digits. -/
theorem value?_eq_none_iff {source : String} {token : Token} (scanned : token ∈ scan source)
    (number : token.kind = .number) :
    Literal.value? token.text = none ↔ IsUnfinished token.text.toList := by
  have noComment : token.kind ≠ .comment := number ▸ TokenKind.noConfusion
  have noString : token.kind ≠ .string := number ▸ TokenKind.noConfusion
  have trimmed := (isLexeme_of_mem_scan scanned noComment noString).trim_eq_self noComment noString
  obtain ⟨first, rest, known, text⟩ := exists_pieceAt_of_mem_scan scanned noComment
  have isNumberText : IsNumberText token.text.toList := by
    rw [text, String.toList_ofList]
    exact isNumberText_pieceAt (known.trans (congrArg some number))
  exact isNumberText.parse?_eq_none_iff trimmed

/-- Of two numbers that each end in an underscore before another token, one has a digit. -/
theorem value?_eq_none_iff_cut :
    let first : Token := ⟨.number, "4'sd_", 1, 1⟩
    let second : Token := ⟨.number, "8'hx_", 1, 8⟩
    first ∈ scan "4'sd_q+8'hx_g" ∧ Literal.value? first.text = none ∧
      IsUnfinished first.text.toList ∧ second ∈ scan "4'sd_q+8'hx_g" ∧
      Literal.value? second.text = some 0 ∧ ¬ IsUnfinished second.text.toList := by
  intro first second
  have scanned : first ∈ scan "4'sd_q+8'hx_g" := by decide +kernel
  have scannedToo : second ∈ scan "4'sd_q+8'hx_g" := by decide +kernel
  have unread : Literal.value? first.text = none := by decide
  have read : Literal.value? second.text = some 0 := by decide
  refine ⟨scanned, unread, (value?_eq_none_iff scanned rfl).mp unread, scannedToo, read, ?_⟩
  intro unfinished
  have none := (value?_eq_none_iff scannedToo rfl).mpr unfinished
  rw [read] at none
  cases none

end Token

end MiniVerilog
