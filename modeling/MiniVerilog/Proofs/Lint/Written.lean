import MiniVerilog.Lint.Survey
import MiniVerilog.Proofs.Token.Name

/-! # Lines that are written from parts, as the linter sees them

On a line that is written from names, numbers and marks, the linter finds the atoms
(`MiniVerilog.Lint.atoms_spelled`) and the words (`MiniVerilog.Lint.placedWords_spelled`) that
the parts are, and nothing that it leaves out (`MiniVerilog.Lint.clean_spelled`).
-/

namespace MiniVerilog.Lint

open Token (Part Written spelled Delimited delimiters lonely)

/-- The texts of parts but for spaces. -/
def texts : List Part → List String
  | [] => []
  | .lexeme _ text :: parts => text :: texts parts
  | .mark c :: parts => if c = ' ' then texts parts else String.singleton c :: texts parts

/-- The texts of parts stand in their order. -/
theorem texts_append (front back : List Part) :
    texts (front ++ back) = texts front ++ texts back := by
  induction front with
  | nil => rfl
  | cons part front ih =>
      cases part with
      | lexeme kind text => exact congrArg (text :: ·) ih
      | mark c =>
          rw [List.cons_append, texts, texts, ih]
          split <;> rfl

/-- The lexemes of parts, with the number of characters before them. -/
def wordsAt (offset : Nat) : List Part → List PlacedWord
  | [] => []
  | .lexeme _ text :: parts => ⟨offset, text⟩ :: wordsAt (offset + text.toList.length) parts
  | .mark _ :: parts => wordsAt (offset + 1) parts

/-- All lexemes are words: names, numbers and reserved words. -/
def Wordy (parts : List Part) : Prop :=
  ∀ kind text, .lexeme kind text ∈ parts → ∀ c ∈ text.toList, isWordChar c = true

theorem Wordy.nil : Wordy [] :=
  fun _ _ member => absurd member List.not_mem_nil

/-- A mark may stand anywhere. -/
theorem Wordy.mark {parts : List Part} (wordy : Wordy parts) (c : Char) :
    Wordy (.mark c :: parts) := by
  intro kind text member
  rcases List.mem_cons.mp member with same | later
  · cases same
  · exact wordy kind text later

/-- A lexeme of word characters may stand in front. -/
theorem Wordy.lexeme {parts : List Part} (wordy : Wordy parts) (kind : TokenKind) {text : String}
    (word : ∀ c ∈ text.toList, isWordChar c = true) : Wordy (.lexeme kind text :: parts) := by
  intro kind other member
  rcases List.mem_cons.mp member with same | later
  · cases same
    exact word
  · exact wordy kind other later

theorem Wordy.tail {part : Part} {parts : List Part} (wordy : Wordy (part :: parts)) :
    Wordy parts :=
  fun kind text member => wordy kind text (List.mem_cons_of_mem part member)

/-- A name is made of word characters. The same is stated below for numbers and reserved words. -/
theorem isWordChar_of_isName {name : String} (isName : Token.IsName name) :
    ∀ c ∈ name.toList, isWordChar c = true :=
  isName.characters

theorem isWordChar_toString (number : Nat) :
    ∀ c ∈ (toString number).toList, isWordChar c = true := by
  have digits : ∀ c ∈ decimalDigits, isWordChar c = true :=
    List.all_iff_forall_prop.mp (by decide)
  exact fun c member => digits c (mem_decimalDigits_of_mem member)

theorem isWordChar_spelling (keyword : Keyword) :
    ∀ c ∈ keyword.spelling.toList, isWordChar c = true := by
  cases keyword <;> exact List.all_iff_forall_prop.mp (by decide)

/-- The marks among parts. -/
def marks : List Part → List Char
  | [] => []
  | .lexeme _ _ :: parts => marks parts
  | .mark c :: parts => c :: marks parts

/-- The marks of parts stand in their order. -/
theorem marks_append (front back : List Part) :
    marks (front ++ back) = marks front ++ marks back := by
  induction front with
  | nil => rfl
  | cons part front ih =>
      cases part with
      | lexeme kind text => exact ih
      | mark c => exact congrArg (c :: ·) ih

/-- The marks of written parts are pieces of their own. -/
theorem marks_subset {parts : List Part} (written : Written parts) : marks parts ⊆ lonely := by
  induction parts with
  | nil => exact List.nil_subset _
  | cons part parts ih =>
      cases part with
      | lexeme kind text => exact ih written.2.2
      | mark c => exact List.cons_subset.mpr ⟨written.1, ih written.2⟩

/-- The characters of a line are those of its words and its marks. -/
theorem mem_spelled {parts : List Part} (wordy : Wordy parts) :
    ∀ c ∈ spelled parts, isWordChar c = true ∨ c ∈ marks parts := by
  induction parts with
  | nil => exact List.forall_mem_nil _
  | cons part parts ih =>
      cases part with
      | lexeme kind text =>
          refine List.forall_mem_append.mpr ⟨fun c member => .inl ?_, ih wordy.tail⟩
          exact wordy kind text List.mem_cons_self c member
      | mark c =>
          refine List.forall_mem_cons.mpr ⟨.inr List.mem_cons_self, fun d member => ?_⟩
          exact (ih wordy.tail d member).imp_right (List.mem_cons_of_mem c)

theorem isWordChar_delimiter : ∀ c ∈ delimiters, isWordChar c = false :=
  List.all_iff_forall_prop.mp (by decide)

theorem isAtomChar_delimiter : ∀ c ∈ delimiters, isAtomChar c = false :=
  List.all_iff_forall_prop.mp (by decide)

/-- A run of characters with a property ends where a delimiter comes, which does not have it. -/
theorem span_append {property : Char → Bool} (never : ∀ c ∈ delimiters, property c = false)
    {cs after : List Char} (all : ∀ c ∈ cs, property c = true) (delimited : Delimited after) :
    (cs ++ after).takeWhile property = cs ∧ (cs ++ after).dropWhile property = after := by
  have stops : ∀ c ∈ after.head?, property c = false := fun c head => never c (delimited c head)
  constructor
  · rw [Token.takeWhile_append_of_head? (delimited.head?_any never),
      List.takeWhile_eq_self_iff.mpr all]
  · rw [List.dropWhile_append_of_pos all, Text.dropWhile_eq_self stops]

/-- **The atoms of a line are the texts of its parts.** -/
theorem atoms_spelled {parts : List Part} (written : Written parts) (wordy : Wordy parts) :
    atoms (spelled parts) = texts parts := by
  have lone : ∀ c ∈ lonely, isAtomChar c = false ∧ (c ≠ ' ' → Text.isBlank c = false) :=
    List.all_iff_forall_prop.mp (by decide)
  induction parts with
  | nil =>
      rw [spelled, List.flatMap_nil, atoms]
      rfl
  | cons part parts ih =>
      cases part with
      | lexeme kind text =>
          obtain ⟨solid, delimited, rest⟩ := written
          have word : ∀ c ∈ text.toList, isAtomChar c = true := fun c member => by
            rw [isAtomChar, wordy kind text List.mem_cons_self c member]
            rfl
          change atoms (text.toList ++ spelled parts) = text :: texts parts
          cases characters : text.toList with
          | nil => exact (solid.lexeme.ne_nil characters).elim
          | cons c cs =>
              rw [characters] at word
              obtain ⟨first, following⟩ := List.forall_mem_cons.mp word
              obtain ⟨taken, dropped⟩ := span_append isAtomChar_delimiter following delimited
              rw [List.cons_append, atoms, if_pos first, taken, dropped, ih rest wordy.tail,
                ← characters, String.ofList_toList]
      | mark c =>
          obtain ⟨member, rest⟩ := written
          obtain ⟨noAtom, noBlank⟩ := lone c member
          change atoms (c :: spelled parts) = _
          rw [atoms, if_neg (Bool.eq_false_iff.mp noAtom), ih rest wordy.tail, texts]
          by_cases space : c = ' '
          · subst space
            rfl
          · rw [if_neg (Bool.eq_false_iff.mp (noBlank space)), if_neg space]
            rfl

/-- **The words of a line are its lexemes.** -/
theorem placedWords_spelled {parts : List Part} (written : Written parts) (wordy : Wordy parts)
    (offset : Nat) : placedWords offset (spelled parts) = wordsAt offset parts := by
  have lone : ∀ c ∈ lonely, isWordChar c = false :=
    List.all_iff_forall_prop.mp (by decide)
  induction parts generalizing offset with
  | nil =>
      rw [spelled, List.flatMap_nil, placedWords]
      rfl
  | cons part parts ih =>
      cases part with
      | lexeme kind text =>
          obtain ⟨solid, delimited, rest⟩ := written
          have word := wordy kind text List.mem_cons_self
          change placedWords offset (text.toList ++ spelled parts) = _ :: wordsAt _ parts
          cases characters : text.toList with
          | nil => exact (solid.lexeme.ne_nil characters).elim
          | cons c cs =>
              rw [characters] at word
              obtain ⟨first, following⟩ := List.forall_mem_cons.mp word
              obtain ⟨taken, dropped⟩ := span_append isWordChar_delimiter following delimited
              have length : offset + 1 + cs.length = offset + (c :: cs).length := by
                rw [List.length_cons, Nat.add_assoc, Nat.add_comm 1]
              rw [List.cons_append, placedWords, if_pos first, taken, dropped]
              simp only
              rw [length, ih rest wordy.tail, ← characters, String.ofList_toList]
      | mark c =>
          obtain ⟨member, rest⟩ := written
          change placedWords offset (c :: spelled parts) = _
          rw [placedWords, if_neg (Bool.eq_false_iff.mp (lone c member)), ih rest wordy.tail]
          rfl

/-- No comment and no string starts on a line of words and marks. -/
theorem clean_spelled {parts : List Part} (written : Written parts) (wordy : Wordy parts) :
    clean false (spelled parts) = (spelled parts, false) := by
  have plain : ∀ c ∈ spelled parts, c ≠ '/' ∧ c ≠ '"' := by
    intro c member
    refine ⟨(written.mem_spelled c member).1, ?_⟩
    rintro rfl
    rcases mem_spelled wordy _ member with word | mark
    · exact absurd word (by decide)
    · exact absurd (marks_subset written mark) (by decide)
  generalize spelled parts = cs at plain
  induction cs with
  | nil => rw [clean]
  | cons c cs ih =>
      obtain ⟨⟨noSlash, noQuote⟩, others⟩ := List.forall_mem_cons.mp plain
      rw [clean.eq_7 c cs (fun _ slash => (noSlash slash).elim)
        (fun _ slash => (noSlash slash).elim) noQuote, ih others]

/-- A word character is no delimiter that the linter counts. -/
theorem countDelimiter_of_isWordChar {c : Char} (word : isWordChar c = true) (line : Nat)
    (survey : Survey) : survey.countDelimiter line c = survey := by
  unfold Survey.countDelimiter
  split
  · cases word
  · cases word
  · cases word
  · cases word
  · rfl

/-- Only marks are counted as delimiters. -/
theorem foldl_countDelimiter_spelled {parts : List Part} (wordy : Wordy parts) (line : Nat)
    (survey : Survey) : (spelled parts).foldl (Survey.countDelimiter line) survey =
      (marks parts).foldl (Survey.countDelimiter line) survey := by
  induction parts generalizing survey with
  | nil => rfl
  | cons part parts ih =>
      cases part with
      | lexeme kind text =>
          have word := wordy kind text List.mem_cons_self
          have same : text.toList.foldl (Survey.countDelimiter line) survey = survey := by
            generalize text.toList = cs at word
            induction cs with
            | nil => rfl
            | cons c cs ih =>
                obtain ⟨first, following⟩ := List.forall_mem_cons.mp word
                rw [List.foldl_cons, countDelimiter_of_isWordChar first, ih following]
          change (text.toList ++ spelled parts).foldl _ _ = _
          rw [List.foldl_append, same, ih wordy.tail]
          rfl
      | mark c => exact ih wordy.tail (survey.countDelimiter line c)

/-- A line without a semicolon is one segment. -/
theorem segments_of_not_mem {cs : List Char} (open_ : ';' ∉ cs)
    (some : ∃ c ∈ cs, Text.isBlank c = false) : segments cs = [⟨cs, false⟩] := by
  have whole : cs.splitOn ';' = [cs] := by
    refine List.splitOnP_eq_singleton fun c member => ?_
    rw [beq_eq_false_iff_ne]
    rintro rfl
    exact open_ member
  have notBlank : cs.all Text.isBlank = false := by
    obtain ⟨c, member, notBlank⟩ := some
    rw [List.all_eq_false]
    exact ⟨c, member, Bool.eq_false_iff.mp notBlank⟩
  simp only [segments, whole, List.dropLast_singleton, List.map_nil, List.length_singleton,
    Nat.sub_self, List.drop_zero, List.map_cons, List.nil_append]
  rw [List.filter_cons_of_pos, List.filter_nil]
  rw [notBlank]
  rfl

end MiniVerilog.Lint
