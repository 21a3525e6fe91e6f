import MiniVerilog.Lint.Survey
import MiniVerilog.Proofs.Token.Length

/-! # Clean lines with a space at the end

A block comment that ends a line leaves a space. The linter finds the same with that space
as without it (`MiniVerilog.Lint.Survey.checkLine_space`): the words, the atoms and the trimmed
texts are the same, and so is every part that is read from what is left.
-/

namespace MiniVerilog.Lint

open Token (takeWhile_append_of_head? dropWhile_append_of_head?)

/-- The other text is the text, or it has one more space at its end. -/
def Spaced (cs other : List Char) : Prop :=
  other = cs ∨ other = cs ++ [' ']

namespace Spaced

variable {cs other : List Char} (spaced : Spaced cs other)

include spaced

theorem append_left (before : List Char) : Spaced (before ++ cs) (before ++ other) := by
  rcases spaced with rfl | rfl
  · exact .inl rfl
  · exact .inr (List.append_assoc _ _ _).symm

/-- A space at the end stays there, or goes with the last characters, when some are dropped. -/
theorem drop (count : Nat) : Spaced (cs.drop count) (other.drop count) := by
  rcases spaced with rfl | rfl
  · exact .inl rfl
  · rw [List.drop_append]
    cases count - cs.length with
    | zero => exact .inr rfl
    | succ more =>
        left
        rw [List.drop_succ_cons, List.drop_nil, List.append_nil]

/-- Dropping from the front keeps a space at the end, or drops it with the rest. -/
theorem dropWhile (property : Char → Bool) :
    Spaced (cs.dropWhile property) (other.dropWhile property) := by
  rcases spaced with rfl | rfl
  · exact .inl rfl
  · rw [List.dropWhile_append]
    split
    · rename_i none
      rw [List.isEmpty_iff.mp none, List.dropWhile_cons]
      split
      · exact .inl rfl
      · exact .inr rfl
    · exact .inr rfl

/-- What is dropped to the end is dropped with the space. -/
theorem dropWhile_eq_nil {property : Char → Bool} (space : property ' ' = true)
    (none : cs.dropWhile property = []) : other.dropWhile property = [] := by
  rcases spaced with rfl | rfl
  · exact none
  · rw [List.dropWhile_append, none, List.isEmpty_nil, if_pos rfl,
      List.dropWhile_cons_of_pos space, List.dropWhile_nil]

/-- Taking from the front takes the space only with everything before it. -/
theorem takeWhile (property : Char → Bool) :
    Spaced (cs.takeWhile property) (other.takeWhile property) := by
  rcases spaced with rfl | rfl
  · exact .inl rfl
  · rw [List.takeWhile_append]
    split
    · rename_i whole
      have all : cs.takeWhile property = cs :=
        (List.takeWhile_prefix property).eq_of_length whole
      rw [all, List.takeWhile_cons]
      split
      · exact .inr rfl
      · exact .inl (List.append_nil cs)
    · exact .inl rfl

/-- What stops at a space does not see one at the end. -/
theorem takeWhile_eq {property : Char → Bool} (space : property ' ' = false) :
    other.takeWhile property = cs.takeWhile property := by
  rcases spaced with rfl | rfl
  · rfl
  · have stops : [' '].head?.any property = false := space
    exact takeWhile_append_of_head? stops cs

/-- A visible character is in both texts or in none. -/
theorem contains_eq {c : Char} (visible : c ≠ ' ') : other.contains c = cs.contains c := by
  rcases spaced with rfl | rfl
  · rfl
  · rw [List.contains_eq_mem, List.contains_eq_mem, decide_eq_decide, List.mem_append,
      List.mem_singleton, or_iff_left visible]

/-- The visible characters are the same. -/
theorem filter_eq :
    (other.filter fun c => !Text.isBlank c) = cs.filter fun c => !Text.isBlank c := by
  rcases spaced with rfl | rfl
  · rfl
  · rw [List.filter_append]
    exact List.append_nil _

/-- Trimming removes the space. -/
theorem trim_eq : Text.trim other = Text.trim cs := by
  rcases spaced.dropWhile Text.isBlank with same | more
  · exact congrArg Text.trimEnd same
  · have blank : Text.isBlank ' ' = true := by decide
    rw [Text.trim, Text.trim, Text.trimStart, Text.trimStart, more, Text.trimEnd, Text.trimEnd,
      List.reverse_append, List.reverse_singleton, List.singleton_append,
      List.dropWhile_cons_of_pos blank]

/-- **The same words stand at the same places.** -/
theorem placedWords_eq (offset : Nat) : placedWords offset other = placedWords offset cs := by
  rcases spaced with rfl | rfl
  · rfl
  · have stops : [' '].head?.any isWordChar = false := by decide
    fun_induction placedWords offset cs with
    | case1 offset =>
        rw [List.nil_append, placedWords, if_neg (by decide), placedWords]
    | case2 offset c rest word more ih =>
        rw [List.cons_append, placedWords, if_pos word, takeWhile_append_of_head? stops,
          dropWhile_append_of_head? stops]
        exact congrArg (_ :: ·) ih
    | case3 offset c rest other ih => rw [List.cons_append, placedWords, if_neg other, ih]

theorem wordsOf_eq : wordsOf other = wordsOf cs :=
  congrArg (List.map _) (spaced.placedWords_eq 0)

/-- **The same atoms are read.** -/
theorem atoms_eq : atoms other = atoms cs := by
  rcases spaced with rfl | rfl
  · rfl
  · have stops : [' '].head?.any isAtomChar = false := by decide
    fun_induction atoms cs with
    | case1 => rw [List.nil_append, atoms, if_neg (by decide), if_pos (by decide), atoms]
    | case2 c rest word ih =>
        rw [List.cons_append, atoms, if_pos word, takeWhile_append_of_head? stops,
          dropWhile_append_of_head? stops, ih]
    | case3 c rest word blank ih => rw [List.cons_append, atoms, if_neg word, if_pos blank, ih]
    | case4 c rest word visible ih => rw [List.cons_append, atoms, if_neg word, if_neg visible, ih]

end Spaced

/-- Only an empty text begins differently. -/
theorem Spaced.cons {c : Char} {cs other : List Char} (spaced : Spaced (c :: cs) other) :
    ∃ rest, other = c :: rest ∧ Spaced cs rest := by
  rcases spaced with rfl | rfl
  · exact ⟨cs, rfl, .inl rfl⟩
  · exact ⟨cs ++ [' '], rfl, .inr rfl⟩

/-- A space at the end goes to the last piece between semicolons. -/
theorem splitOn_space (cs : List Char) : ∃ front last,
    cs.splitOn ';' = front ++ [last] ∧ (cs ++ [' ']).splitOn ';' = front ++ [last ++ [' ']] := by
  induction cs with
  | nil => exact ⟨[], [], rfl, rfl⟩
  | cons c cs ih =>
      obtain ⟨front, last, old, new⟩ := ih
      rw [List.splitOn] at old new ⊢
      rw [List.splitOn, List.cons_append, List.splitOnP_cons_eq_if_modifyHead,
        List.splitOnP_cons_eq_if_modifyHead, old, new]
      split
      · exact ⟨[] :: front, last, rfl, rfl⟩
      · cases front with
        | nil => exact ⟨[], c :: last, rfl, rfl⟩
        | cons first front => exact ⟨(c :: first) :: front, last, rfl, rfl⟩

/-- The segment at the end of a line, unless it is blank. -/
def openSegment (piece : List Char) : List Segment :=
  [(⟨piece, false⟩ : Segment)].filter fun segment => !(segment.text.all Text.isBlank)

/-- A space at the end goes to the segment that is open at the end of the line, if there is one. -/
theorem segments_space (cs : List Char) : ∃ front last,
    segments cs = front ++ openSegment last ∧
      segments (cs ++ [' ']) = front ++ openSegment (last ++ [' ']) := by
  obtain ⟨front, last, old, new⟩ := splitOn_space cs
  refine ⟨(front.map fun piece => (⟨piece, true⟩ : Segment)).filter
    fun segment => !(segment.text.all Text.isBlank), last, ?_, ?_⟩
  · simp [segments, old, openSegment]
  · simp [segments, new, openSegment]

namespace Survey

variable {cs other : List Char} (spaced : Spaced cs other) (line : Nat)

include spaced

theorem nextWord_spaced : nextWord other = nextWord cs := by
  have space : isWordChar ' ' = false := by decide
  exact (spaced.dropWhile Text.isBlank).takeWhile_eq space

theorem openModule_spaced (survey : Survey) (place : PlacedWord) :
    survey.openModule line other place = survey.openModule line cs place := by
  rw [openModule, openModule, spaced.contains_eq (by decide), nextWord_spaced (spaced.drop _)]

theorem countWord_spaced (survey : Survey) (place : PlacedWord) :
    countWord line other survey place = countWord line cs survey place := by
  simp only [countWord, openModule_spaced spaced]

/-- A check of an assignment does not see a space at the end. The same holds for the other checks of
a segment. -/
theorem checkAssign_spaced (survey : Survey) (terminated : Bool) :
    survey.checkAssign line ⟨other, terminated⟩ = survey.checkAssign line ⟨cs, terminated⟩ := by
  have body := (spaced.dropWhile Text.isBlank).drop "assign".length
  have following := body.dropWhile (· != '=')
  have target := (body.takeWhile (· != '=')).trim_eq
  simp only [checkAssign, Text.trimStart, target]
  cases split : (((cs.dropWhile Text.isBlank).drop "assign".length).dropWhile (· != '=')) with
  | nil => rw [body.dropWhile_eq_nil (by decide) split]
  | cons equals expression =>
      rw [split] at following
      obtain ⟨rest, same, ending⟩ := following.cons
      rw [same]
      simp only [ending.trim_eq]

/-- The words of an event control are the same. -/
theorem eventWords_spaced : eventWords other = eventWords cs := by
  have start := spaced.dropWhile Text.isBlank
  unfold eventWords Text.trimStart
  cases split : cs.dropWhile Text.isBlank with
  | nil => rw [spaced.dropWhile_eq_nil (by decide) split]
  | cons c inner =>
      rw [split] at start
      obtain ⟨rest, same, ending⟩ := start.cons
      rw [same]
      by_cases star : c = '*'
      · subst star
        rfl
      by_cases opening : c = '('
      · subst opening
        simp only [(ending.takeWhile (· != ')')).atoms_eq]
      · have whole : Spaced (c :: inner) (c :: rest) := ending.append_left [c]
        split
        · exact (star (List.cons.inj ‹_›).1).elim
        · exact (opening (List.cons.inj ‹_›).1).elim
        · split
          · exact (star (List.cons.inj ‹_›).1).elim
          · exact (opening (List.cons.inj ‹_›).1).elim
          · rw [whole.atoms_eq]

theorem isImplicitControl_spaced : isImplicitControl other = isImplicitControl cs := by
  rw [isImplicitControl, isImplicitControl, spaced.filter_eq]

/-- A check of an always block does not see a space at the end. -/
theorem checkAlways_spaced (survey : Survey) :
    survey.checkAlways line other = survey.checkAlways line cs := by
  have control := spaced.dropWhile (· != '@')
  unfold checkAlways
  rw [spaced.contains_eq (by decide), spaced.wordsOf_eq, isImplicitControl_spaced spaced]
  cases split : cs.dropWhile (· != '@') with
  | nil => rw [spaced.dropWhile_eq_nil (by decide) split]
  | cons sign rest =>
      rw [split] at control
      obtain ⟨more, same, ending⟩ := control.cons
      simp only [same, eventWords_spaced ending]

theorem checkSegment_spaced (survey : Survey) (terminated : Bool) :
    checkSegment line survey ⟨other, terminated⟩ = checkSegment line survey ⟨cs, terminated⟩ := by
  simp only [checkSegment, spaced.atoms_eq, checkAssign_spaced spaced, checkAlways_spaced spaced]

end Survey

/-- The segment at the end of a line is checked as without the space, and a blank one is not checked
at all. -/
theorem foldl_openSegment_space (line : Nat) (survey : Survey) (piece : List Char) :
    (openSegment (piece ++ [' '])).foldl (Survey.checkSegment line) survey =
      (openSegment piece).foldl (Survey.checkSegment line) survey := by
  have blank : (piece ++ [' ']).all Text.isBlank = piece.all Text.isBlank := by
    rw [List.all_append]
    exact Bool.and_true _
  rw [openSegment, openSegment, List.filter_cons, List.filter_cons, blank]
  split
  · exact Survey.checkSegment_spaced (.inr rfl) line survey false
  · rfl

/-- **A space at the end of a clean line changes nothing.** -/
theorem Survey.checkLine_space (survey : Survey) (line : Nat) (cs : List Char) :
    survey.checkLine line (cs ++ [' ']) = survey.checkLine line cs := by
  have spaced : Spaced cs (cs ++ [' ']) := .inr rfl
  obtain ⟨front, last, old, new⟩ := segments_space cs
  have words : countWord line (cs ++ [' ']) = countWord line cs := by
    funext survey place
    exact countWord_spaced spaced line survey place
  have delimiters (survey : Survey) : (cs ++ [' ']).foldl (countDelimiter line) survey =
      cs.foldl (countDelimiter line) survey := by
    rw [List.foldl_append]
    rfl
  rw [checkLine, checkLine, words, delimiters, spaced.placedWords_eq, old, new, List.foldl_append,
    List.foldl_append]
  exact foldl_openSegment_space line _ last

end MiniVerilog.Lint
