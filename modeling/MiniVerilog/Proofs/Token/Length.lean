import Mathlib.Data.Bool.AllAny
import Mathlib.Data.List.Infix
import Mathlib.Data.List.TakeWhile
import MiniVerilog.Token.Scan

/-! # How far tokens reach

The lengths of names, literals, comments and strings depend on the characters that
come next. Two facts are shown of each of them: it is the same before a delimiter
and at the end of a line, and what it takes has the same length on its own.
-/

namespace MiniVerilog.Token

/-- The blank characters. -/
def blanks : List Char :=
  Text.blankRanges.flatMap fun (low, high) =>
    (List.range' low (high + 1 - low)).map Char.ofNat

/-- The list of blank characters is complete, so that a property of all blanks can be checked on
it. -/
theorem mem_blanks {c : Char} (blank : Text.isBlank c = true) : c ∈ blanks := by
  obtain ⟨⟨low, high⟩, member, inside⟩ := List.any_eq_true.mp blank
  rw [Bool.and_eq_true, decide_eq_true_eq, decide_eq_true_eq] at inside
  refine List.mem_flatMap.mpr ⟨(low, high), member, List.mem_map.mpr ⟨c.toNat, ?_, ?_⟩⟩
  · rw [List.mem_range'_1]
    omega
  · exact Char.ofNat_toNat c

/-- The characters that continue no token: blanks and punctuation marks. -/
def delimiters : List Char :=
  blanks ++ punctuation

/-- A text that is empty or starts with a delimiter. -/
def Delimited (cs : List Char) : Prop :=
  ∀ c ∈ cs.head?, c ∈ delimiters

theorem Delimited.nil : Delimited [] := by
  intro c head
  cases head

theorem Delimited.cons {c : Char} (delimiter : c ∈ delimiters) (cs : List Char) :
    Delimited (c :: cs) := by
  intro other head
  rw [List.head?_cons, Option.mem_some_iff] at head
  exact head ▸ delimiter

/-- What is taken from the front does not reach into what follows, if that starts with a character
that stops it. -/
theorem takeWhile_append_of_head? {property : Char → Bool} {after : List Char}
    (stops : after.head?.any property = false) (cs : List Char) :
    (cs ++ after).takeWhile property = cs.takeWhile property := by
  induction cs with
  | nil =>
      cases after with
      | nil => rfl
      | cons c after =>
          have other : ¬ property c = true := ne_true_of_eq_false stops
          rw [List.nil_append, List.takeWhile_cons_of_neg other, List.takeWhile_nil]
  | cons c cs ih => simp only [List.cons_append, List.takeWhile_cons, ih]

/-- What is dropped from the front does not reach into what follows, if that starts with a character
that stops it. -/
theorem dropWhile_append_of_head? {property : Char → Bool} {after : List Char}
    (stops : after.head?.any property = false) (cs : List Char) :
    (cs ++ after).dropWhile property = cs.dropWhile property ++ after := by
  induction cs with
  | nil =>
      cases after with
      | nil => rfl
      | cons c after =>
          have other : ¬ property c = true := ne_true_of_eq_false stops
          rw [List.nil_append, List.dropWhile_cons_of_neg other, List.dropWhile_nil,
            List.nil_append]
  | cons c cs ih =>
      simp only [List.cons_append, List.dropWhile_cons, ih]
      split <;> rfl

/-- A property that no delimiter has is not that of the character a token is
followed by. -/
theorem Delimited.head?_any {after : List Char} (delimited : Delimited after)
    {property : Char → Bool} (never : ∀ c ∈ delimiters, property c = false) :
    after.head?.any property = false := by
  cases after with
  | nil => rfl
  | cons c after => exact never c (delimited c rfl)

/-- A character that no delimiter is stands in front of a text exactly if it did before a delimited
text was added. -/
theorem Delimited.head?_append_any {after : List Char} (delimited : Delimited after)
    {property : Char → Bool} (never : ∀ c ∈ delimiters, property c = false) (cs : List Char) :
    (cs ++ after).head?.any property = cs.head?.any property := by
  cases cs with
  | nil => exact delimited.head?_any never
  | cons c cs => rfl

theorem isNameChar_delimiter : ∀ c ∈ delimiters, isNameChar c = false :=
  List.all_iff_forall_prop.mp (by decide)

theorem isNameStart_delimiter : ∀ c ∈ delimiters, isNameStart c = false :=
  List.all_iff_forall_prop.mp (by decide)

/-- What starts a name may also continue one. -/
theorem isNameChar_of_isNameStart {c : Char} (isStart : isNameStart c = true) :
    isNameChar c = true := by
  rw [isNameStart, Bool.or_eq_true] at isStart
  rw [isNameChar, Char.isAlphanum]
  obtain alpha | underscore := isStart
  · rw [alpha, Bool.true_or, Bool.true_or, Bool.true_or]
  · rw [underscore, Bool.or_true, Bool.true_or]

theorem isBaseMark_delimiter : ∀ c ∈ delimiters, isBaseMark c = false :=
  List.all_iff_forall_prop.mp (by decide)

theorem admits_delimiter (radix : Radix) : ∀ c ∈ delimiters, radix.admits c = false := by
  cases radix <;> exact List.all_iff_forall_prop.mp (by decide)

/-- The number of characters that a base letter at the front takes with it. -/
def letterLength : List Char → Nat
  | [] => 0
  | letter :: digits =>
    match Radix.ofLetter? letter with
    | some radix => 1 + (digits.takeWhile radix.admits).length
    | none => 0

/-- The sign mark before the base letter of a literal. -/
def isSignMark (c : Char) : Bool :=
  c == 's' || c == 'S'

/-- A sign mark counts as one character, and the base letter is looked for after it. -/
theorem basedLength_cons_of_isSignMark {c : Char} (sign : isSignMark c = true) (cs : List Char) :
    basedLength (c :: cs) = 1 + letterLength cs := by
  have marks : (if c == 's' || c == 'S' then 1 else 0) = 1 := if_pos sign
  simp only [basedLength, marks, List.drop_succ_cons, List.drop_zero]
  cases cs with
  | nil => rfl
  | cons letter digits =>
      simp only [letterLength]
      cases Radix.ofLetter? letter with
      | none => rfl
      | some radix => exact Nat.add_assoc _ _ _

/-- Without a sign mark the base letter is looked for at once. -/
theorem basedLength_of_not_isSignMark {cs : List Char}
    (unsigned : cs.head?.any isSignMark = false) : basedLength cs = letterLength cs := by
  cases cs with
  | nil => rfl
  | cons c digits =>
      have marks : (if c == 's' || c == 'S' then 1 else 0) = 0 :=
        if_neg (ne_true_of_eq_false unsigned)
      cases known : Radix.ofLetter? c with
      | none => simp only [basedLength, marks, List.drop_zero, letterLength, known]
      | some radix =>
          simp only [basedLength, marks, List.drop_zero, letterLength, known, Nat.zero_add]

/-- A delimiter after the digits ends them: what follows it does not change how far a base letter
reaches. -/
theorem letterLength_append (cs : List Char) {after : List Char} (delimited : Delimited after) :
    letterLength (cs ++ after) = letterLength cs := by
  cases cs with
  | nil =>
      cases after with
      | nil => rfl
      | cons c after =>
          have never : ∀ c ∈ delimiters, Radix.ofLetter? c = none :=
            List.all_iff_forall_prop.mp (by decide)
          simp only [List.nil_append, letterLength, never c (delimited c rfl)]
  | cons letter digits =>
      simp only [List.cons_append, letterLength]
      cases Radix.ofLetter? letter with
      | none => rfl
      | some radix =>
          simp only [takeWhile_append_of_head? (delimited.head?_any (admits_delimiter radix))]

/-- A base letter with its digits, cut out of a text, reaches just as far as in the text. -/
theorem letterLength_take (cs : List Char) :
    letterLength (cs.take (letterLength cs)) = letterLength cs := by
  cases cs with
  | nil => rfl
  | cons letter digits =>
      cases known : Radix.ofLetter? letter with
      | none => simp only [letterLength, known, List.take_zero]
      | some radix =>
          simp only [letterLength, known, Nat.add_comm 1, List.take_succ_cons]
          rw [← List.prefix_iff_eq_take.mp (List.takeWhile_prefix radix.admits),
            List.takeWhile_idem]

/-- A base letter takes no more characters than there are. -/
theorem letterLength_le (cs : List Char) : letterLength cs ≤ cs.length := by
  cases cs with
  | nil => exact Nat.le_refl _
  | cons letter digits =>
      simp only [letterLength, List.length_cons]
      cases Radix.ofLetter? letter with
      | none => exact Nat.zero_le _
      | some radix =>
          have inside : (digits.takeWhile radix.admits).length ≤ digits.length :=
            (List.takeWhile_prefix radix.admits).length_le
          simp only
          omega

theorem basedLength_le (cs : List Char) : basedLength cs ≤ cs.length := by
  by_cases unsigned : cs.head?.any isSignMark = false
  · rw [basedLength_of_not_isSignMark unsigned]
    exact letterLength_le cs
  · cases cs with
    | nil => exact (unsigned rfl).elim
    | cons c cs =>
        have sign : isSignMark c = true := Bool.of_not_eq_false unsigned
        rw [basedLength_cons_of_isSignMark sign, Nat.add_comm, List.length_cons]
        exact Nat.succ_le_succ (letterLength_le cs)

/-- What follows a delimiter does not change how far the part after a tick reaches. -/
theorem basedLength_append (cs : List Char) {after : List Char} (delimited : Delimited after) :
    basedLength (cs ++ after) = basedLength cs := by
  have head : (cs ++ after).head?.any isSignMark = cs.head?.any isSignMark :=
    delimited.head?_append_any (List.all_iff_forall_prop.mp (by decide)) cs
  by_cases unsigned : cs.head?.any isSignMark = false
  · rw [basedLength_of_not_isSignMark unsigned,
      basedLength_of_not_isSignMark (head.trans unsigned), letterLength_append cs delimited]
  · cases cs with
    | nil => exact (unsigned rfl).elim
    | cons c cs =>
        have sign : isSignMark c = true := Bool.of_not_eq_false unsigned
        rw [List.cons_append, basedLength_cons_of_isSignMark sign,
          basedLength_cons_of_isSignMark sign, letterLength_append cs delimited]

/-- The part after a tick, cut out of a text, reaches just as far as in the text. -/
theorem basedLength_take (cs : List Char) :
    basedLength (cs.take (basedLength cs)) = basedLength cs := by
  by_cases unsigned : cs.head?.any isSignMark = false
  · rw [basedLength_of_not_isSignMark unsigned]
    have still : (cs.take (letterLength cs)).head?.any isSignMark = false := by
      cases length : letterLength cs with
      | zero => rfl
      | succ _ => rw [List.head?_take, if_neg (Nat.succ_ne_zero _), unsigned]
    rw [basedLength_of_not_isSignMark still, letterLength_take]
  · cases cs with
    | nil => exact (unsigned rfl).elim
    | cons c cs =>
        have sign : isSignMark c = true := Bool.of_not_eq_false unsigned
        rw [basedLength_cons_of_isSignMark sign, Nat.add_comm 1, List.take_succ_cons,
          basedLength_cons_of_isSignMark sign, letterLength_take, Nat.add_comm 1]

/-- A base mark belongs to the literal. -/
theorem basedLength_pos {mark : Char} (isMark : isBaseMark mark = true) (cs : List Char) :
    0 < basedLength (mark :: cs) := by
  by_cases sign : isSignMark mark = true
  · rw [basedLength_cons_of_isSignMark sign]
    exact Nat.lt_of_lt_of_le Nat.zero_lt_one (Nat.le_add_right _ _)
  · have unsigned : (mark :: cs).head?.any isSignMark = false := Bool.eq_false_iff.mpr sign
    rw [basedLength_of_not_isSignMark unsigned]
    have letter : (Radix.ofLetter? mark).isSome = true := by
      rw [isBaseMark, Bool.or_assoc, Bool.or_eq_true] at isMark
      exact isMark.resolve_right sign
    obtain ⟨radix, known⟩ := Option.isSome_iff_exists.mp letter
    simp only [letterLength, known]
    exact Nat.lt_of_lt_of_le Nat.zero_lt_one (Nat.le_add_right _ _)

/-- A character of the part of a literal before the tick. -/
def isSizeChar (c : Char) : Bool :=
  c.isDigit || c == '_'

/-- The part of a literal from its tick on, if there is one. -/
def tickLength : List Char → Nat
  | tick :: rest =>
    if tick == '\'' && rest.head?.any isBaseMark then 1 + basedLength rest else 0
  | [] => 0

/-- **A number is its size and then what a tick takes.** The scanner counts both in one pass; the
laws below are proved for each part alone. -/
theorem numberLength_eq (cs : List Char) :
    numberLength cs =
      (cs.takeWhile isSizeChar).length + tickLength (cs.dropWhile isSizeChar) := by
  have after : cs.drop (cs.takeWhile isSizeChar).length = cs.dropWhile isSizeChar := by
    calc cs.drop (cs.takeWhile isSizeChar).length
        = (cs.takeWhile isSizeChar ++ cs.dropWhile isSizeChar).drop
            (cs.takeWhile isSizeChar).length := by rw [List.takeWhile_append_dropWhile]
      _ = cs.dropWhile isSizeChar := List.drop_left
  unfold numberLength
  rw [show (fun c : Char => c.isDigit || c == '_') = isSizeChar from rfl]
  dsimp only
  rw [after]
  generalize cs.dropWhile isSizeChar = others
  split
  · rename_i mark rest
    simp only [tickLength, beq_self_eq_true, List.head?_cons, Option.any_some, Bool.true_and]
    split
    · exact Nat.add_assoc _ _ _
    · rfl
  · rename_i unmarked
    have none : tickLength others = 0 := by
      unfold tickLength
      split
      · rename_i tick rest
        apply if_neg
        intro both
        rw [Bool.and_eq_true, beq_iff_eq] at both
        cases rest with
        | nil => cases both.2
        | cons mark rest => exact unmarked mark rest (by rw [both.1])
      · rfl
    rw [none, Nat.add_zero]

theorem tickLength_le (cs : List Char) : tickLength cs ≤ cs.length := by
  cases cs with
  | nil => exact Nat.le_refl _
  | cons tick rest =>
      have inside := basedLength_le rest
      simp only [tickLength, List.length_cons]
      split <;> omega

theorem numberLength_le (cs : List Char) : numberLength cs ≤ cs.length := by
  have inside := tickLength_le (cs.dropWhile isSizeChar)
  have parts : (cs.takeWhile isSizeChar ++ cs.dropWhile isSizeChar).length = cs.length := by
    rw [List.takeWhile_append_dropWhile]
  rw [List.length_append] at parts
  rw [numberLength_eq]
  omega

/-- What follows a delimiter does not change how far the part from the tick on reaches. -/
theorem tickLength_append (cs : List Char) {after : List Char} (delimited : Delimited after) :
    tickLength (cs ++ after) = tickLength cs := by
  cases cs with
  | nil =>
      cases after with
      | nil => rfl
      | cons c after =>
          have never : ∀ c ∈ delimiters, (c == '\'') = false :=
            List.all_iff_forall_prop.mp (by decide)
          simp only [List.nil_append, tickLength, never c (delimited c rfl), Bool.false_and,
            Bool.false_eq_true, ↓reduceIte]
  | cons tick rest =>
      simp only [List.cons_append, tickLength, basedLength_append rest delimited,
        delimited.head?_append_any isBaseMark_delimiter rest]

/-- The part from the tick on, cut out of a text, reaches just as far as in the text. -/
theorem tickLength_take (cs : List Char) :
    tickLength (cs.take (tickLength cs)) = tickLength cs := by
  cases cs with
  | nil => rfl
  | cons tick rest =>
      by_cases marked : (tick == '\'' && rest.head?.any isBaseMark) = true
      · have length : tickLength (tick :: rest) = basedLength rest + 1 := by
          rw [tickLength, if_pos marked, Nat.add_comm]
        obtain ⟨isTick, isMark⟩ := (Bool.and_eq_true _ _).mp marked
        have still : ((rest.take (basedLength rest)).head?.any isBaseMark) = true := by
          cases rest with
          | nil => cases isMark
          | cons mark rest =>
              rw [List.head?_take, if_neg (Nat.ne_of_gt (basedLength_pos isMark rest))]
              exact isMark
        rw [length, List.take_succ_cons, tickLength, isTick, still, Bool.and_self, if_pos rfl,
          basedLength_take, Nat.add_comm]
      · have length : tickLength (tick :: rest) = 0 := if_neg marked
        rw [length, List.take_zero]
        rfl

/-- The part from the tick on does not start with a character that the size could take. -/
theorem head?_tick (cs : List Char) : (cs.take (tickLength cs)).head?.any isSizeChar = false := by
  cases cs with
  | nil => rfl
  | cons tick rest =>
      by_cases isTick : tick = '\''
      · subst isTick
        cases tickLength ('\'' :: rest) <;> rfl
      · have length : tickLength (tick :: rest) = 0 :=
          if_neg fun both => isTick (beq_iff_eq.mp ((Bool.and_eq_true _ _).mp both).1)
        rw [length]
        rfl

/-- A literal ends before a delimiter. -/
theorem numberLength_append (cs : List Char) {after : List Char} (delimited : Delimited after) :
    numberLength (cs ++ after) = numberLength cs := by
  have stops : after.head?.any isSizeChar = false :=
    delimited.head?_any (List.all_iff_forall_prop.mp (by decide))
  rw [numberLength_eq, numberLength_eq, takeWhile_append_of_head? stops,
    dropWhile_append_of_head? stops, tickLength_append _ delimited]

theorem take_numberLength (cs : List Char) : cs.take (numberLength cs) =
    cs.takeWhile isSizeChar ++
      (cs.dropWhile isSizeChar).take (tickLength (cs.dropWhile isSizeChar)) := by
  rw [numberLength_eq, ← List.take_length_add_append, List.takeWhile_append_dropWhile]

/-- **A number that is cut out of a text reaches to its end.** -/
theorem numberLength_take (cs : List Char) :
    numberLength (cs.take (numberLength cs)) = numberLength cs := by
  rw [take_numberLength, numberLength_eq, numberLength_eq, takeWhile_append_of_head? (head?_tick _),
    dropWhile_append_of_head? (head?_tick _), List.takeWhile_idem,
    List.dropWhile_eq_nil_iff.mpr (fun _ => List.mem_takeWhile_imp), List.nil_append,
    tickLength_take]

/-- A character that does not end the comment makes it longer by one. -/
theorem commentLength?_cons {c : Char} {cs : List Char}
    (goesOn : ¬ (c = '*' ∧ cs.head? = some '/')) :
    commentLength? (c :: cs) = (commentLength? cs).map (· + 1) := by
  apply commentLength?.eq_3
  intro rest star slash
  exact goesOn ⟨star, slash ▸ rfl⟩

/-- A comment that has its end has it whatever follows. -/
theorem commentLength?_append {cs : List Char} {length : Nat}
    (closed : commentLength? cs = some length) (after : List Char) :
    commentLength? (cs ++ after) = some length := by
  induction cs generalizing length with
  | nil => cases closed
  | cons c cs ih =>
      by_cases ends : c = '*' ∧ cs.head? = some '/'
      · obtain ⟨rfl, slash⟩ := ends
        obtain ⟨rest, rfl⟩ := List.head?_eq_some_iff.mp slash
        exact closed
      · rw [commentLength?_cons ends, Option.map_eq_some_iff] at closed
        obtain ⟨shorter, rest, rfl⟩ := closed
        have still : ¬ (c = '*' ∧ (cs ++ after).head? = some '/') := by
          intro both
          cases cs with
          | nil => cases rest
          | cons d cs => exact ends both
        rw [List.cons_append, commentLength?_cons still, ih rest]
        rfl

/-- A block comment that is cut out of a text still ends where it ended. -/
theorem commentLength?_take {cs : List Char} {length : Nat}
    (closed : commentLength? cs = some length) : commentLength? (cs.take length) = some length := by
  induction cs generalizing length with
  | nil => cases closed
  | cons c cs ih =>
      by_cases ends : c = '*' ∧ cs.head? = some '/'
      · obtain ⟨rfl, slash⟩ := ends
        obtain ⟨rest, rfl⟩ := List.head?_eq_some_iff.mp slash
        cases closed
        rfl
      · rw [commentLength?_cons ends, Option.map_eq_some_iff] at closed
        obtain ⟨shorter, rest, rfl⟩ := closed
        have still : ¬ (c = '*' ∧ (cs.take shorter).head? = some '/') := by
          intro both
          rw [List.head?_take] at both
          split at both
          · cases both.2
          · exact ends both
        rw [List.take_succ_cons, commentLength?_cons still, ih rest]
        rfl

/-- The end of a block comment is in the text. -/
theorem commentLength?_le {cs : List Char} {length : Nat}
    (closed : commentLength? cs = some length) : length ≤ cs.length := by
  fun_induction commentLength? cs generalizing length with
  | case1 => cases closed
  | case2 =>
      cases closed
      simp only [List.length_cons]
      omega
  | case3 c cs _ ih =>
      obtain ⟨shorter, rest, rfl⟩ := Option.map_eq_some_iff.mp closed
      exact Nat.succ_le_succ (ih rest)

/-- The end of a block comment takes a character at least. -/
theorem commentLength?_pos {cs : List Char} {length : Nat}
    (closed : commentLength? cs = some length) : 0 < length := by
  fun_induction commentLength? cs with
  | case1 => cases closed
  | case2 =>
      cases closed
      exact Nat.zero_lt_two
  | case3 =>
      obtain ⟨shorter, -, rfl⟩ := Option.map_eq_some_iff.mp closed
      exact Nat.succ_pos shorter

/-- A string, after its opening quote, has its closing quote. -/
def closesString : List Char → Bool
  | [] => false
  | '"' :: _ => true
  | '\\' :: _ :: rest => closesString rest
  | _ :: rest => closesString rest

/-- A character of a string that is neither its closing quote nor an escape. -/
theorem stringLength_cons {c : Char} (noQuote : c ≠ '"') (noEscape : c ≠ '\\')
    (cs : List Char) : stringLength (c :: cs) = stringLength cs + 1 :=
  stringLength.eq_4 c cs noQuote fun _ _ backslash _ => noEscape backslash

/-- A string with its closing quote ends there, whatever follows. -/
theorem stringLength_append {cs : List Char} (closed : closesString cs = true)
    (after : List Char) : stringLength (cs ++ after) = stringLength cs := by
  fun_induction closesString cs with
  | case1 => cases closed
  | case2 => rfl
  | case3 escaped rest ih => simp only [List.cons_append, stringLength, ih closed]
  | case4 c rest noQuote noEscape ih =>
      have unescaped : c ≠ '\\' := by
        rintro rfl
        cases rest with
        | nil => cases closed
        | cons escaped rest => exact noEscape escaped rest rfl rfl
      rw [List.cons_append, stringLength_cons noQuote unescaped,
        stringLength_cons noQuote unescaped, ih closed]

/-- A string that is cut out of a text reaches to its end. -/
theorem stringLength_take (cs : List Char) :
    stringLength (cs.take (stringLength cs)) = stringLength cs := by
  fun_induction stringLength cs with
  | case1 => rfl
  | case2 => rfl
  | case3 escaped rest ih => simp only [List.take_succ_cons, stringLength, ih]
  | case4 c rest noQuote noEscape ih =>
      by_cases escape : c = '\\'
      · subst escape
        cases rest with
        | nil => rfl
        | cons escaped rest => exact (noEscape escaped rest rfl rfl).elim
      · rw [List.take_succ_cons, stringLength_cons noQuote escape, ih]

theorem stringLength_le (cs : List Char) : stringLength cs ≤ cs.length := by
  fun_induction stringLength cs <;> simp only [List.length_cons, List.length_nil] <;> omega

/-- A string without a closing quote takes the whole line. -/
theorem stringLength_of_not_closesString {cs : List Char} (unclosed : closesString cs = false) :
    stringLength cs = cs.length := by
  fun_induction closesString cs with
  | case1 => rfl
  | case2 => cases unclosed
  | case3 escaped rest ih => simp only [stringLength, List.length_cons, ih unclosed]
  | case4 c rest noQuote noEscape ih =>
      by_cases escape : c = '\\'
      · subst escape
        cases rest with
        | nil => rfl
        | cons escaped rest => exact (noEscape escaped rest rfl rfl).elim
      · rw [stringLength_cons noQuote escape, List.length_cons, ih unclosed]

end MiniVerilog.Token
