import MiniVerilog.Proofs.Text.Blank
import MiniVerilog.Source.Phrase

/-! # Expression texts that are taken as they are

Words that have no blanks, joined by spaces, are kept as they are unless parentheses
wrap them (`MiniVerilog.Source.unwrap_joined`), and groups of words between
commas are told apart again (`MiniVerilog.Source.labels_separated`).
-/

namespace MiniVerilog.Source

/-- A word of an expression text: it is not empty and has no blanks. -/
structure IsWord (word : String) : Prop where
  nonempty : word ≠ ""
  not_isBlank : ∀ c ∈ word.toList, Text.isBlank c = false

theorem isWord_iff {word : String} :
    IsWord word ↔ word ≠ "" ∧ word.toList.all (fun c => !Text.isBlank c) = true := by
  simp only [List.all_eq_true, Bool.not_eq_true']
  exact ⟨fun isWord => ⟨isWord.nonempty, isWord.not_isBlank⟩, fun both => ⟨both.1, both.2⟩⟩

instance (word : String) : Decidable (IsWord word) :=
  decidable_of_iff' _ isWord_iff

theorem IsWord.toList_ne_nil {word : String} (isWord : IsWord word) : word.toList ≠ [] :=
  fun empty => isWord.nonempty (String.toList_eq_nil_iff.mp empty)

/-- Between two words stands one space. -/
theorem joined_cons_cons (word next : String) (words : List String) :
    (joined (word :: next :: words)).toList =
      word.toList ++ ' ' :: (joined (next :: words)).toList := by
  rw [joined, String.intercalate_cons_cons, String.toList_append, String.toList_append,
    List.append_assoc]
  rfl

/-- The characters of words with a separator between them are those of the separator and of the
words. -/
theorem mem_intercalate {separator : String} {words : List String} {c : Char}
    (member : c ∈ (separator.intercalate words).toList) :
    c ∈ separator.toList ∨ ∃ word ∈ words, c ∈ word.toList := by
  induction words with
  | nil => cases member
  | cons word words ih =>
      cases words with
      | nil =>
          rw [String.intercalate_singleton] at member
          exact .inr ⟨word, List.mem_cons_self, member⟩
      | cons next words =>
          rw [String.intercalate_cons_cons, String.toList_append, String.toList_append,
            List.mem_append, List.mem_append] at member
          rcases member with (here | between) | later
          · exact .inr ⟨word, List.mem_cons_self, here⟩
          · exact .inl between
          · rcases ih later with between | ⟨other, inside, found⟩
            · exact .inl between
            · exact .inr ⟨other, List.mem_cons_of_mem _ inside, found⟩

/-- The characters of joined words are spaces and those of the words. -/
theorem mem_joined {words : List String} {c : Char} (member : c ∈ (joined words).toList) :
    c = ' ' ∨ ∃ word ∈ words, c ∈ word.toList := by
  rcases mem_intercalate member with between | inWord
  · exact .inl (List.mem_singleton.mp between)
  · exact .inr inWord

/-- A character other than a space that is in no word is not in the joined words. -/
theorem not_mem_joined {words : List String} {c : Char} (noSpace : c ≠ ' ')
    (absent : ∀ word ∈ words, c ∉ word.toList) : c ∉ (joined words).toList := by
  intro member
  rcases mem_joined member with space | ⟨word, inWords, inside⟩
  · exact noSpace space
  · exact absent word inWords inside

/-- Joined words start with the first word. -/
theorem head?_joined {word : String} (isWord : IsWord word) (words : List String) :
    (joined (word :: words)).toList.head? = word.toList.head? := by
  cases words with
  | nil => rw [joined, String.intercalate_singleton]
  | cons next words =>
      obtain ⟨c, cs, split⟩ := List.exists_cons_of_ne_nil isWord.toList_ne_nil
      rw [joined_cons_cons, split]
      rfl

/-- Joined words do not end in a blank. -/
theorem getLast?_joined {words : List String} (areWords : ∀ word ∈ words, IsWord word) :
    ∀ c ∈ (joined words).toList.getLast?, Text.isBlank c = false := by
  induction words with
  | nil =>
      intro c last
      cases last
  | cons word words ih =>
      intro c last
      cases words with
      | nil =>
          rw [joined, String.intercalate_singleton] at last
          exact (areWords word List.mem_cons_self).not_isBlank c (List.mem_of_getLast? last)
      | cons next words =>
          have others := ih fun other member => areWords other (List.mem_cons_of_mem _ member)
          have nonempty : (joined (next :: words)).toList ≠ [] := by
            have isWord := areWords next (List.mem_cons_of_mem _ List.mem_cons_self)
            intro empty
            have head := head?_joined isWord words
            rw [empty] at head
            exact isWord.toList_ne_nil (List.head?_eq_none_iff.mp head.symm)
          rw [joined_cons_cons, List.getLast?_append, List.getLast?_cons_of_ne_nil nonempty,
            List.getLast?_eq_some_getLast nonempty, Option.some_or] at last
          rw [List.getLast?_eq_some_getLast nonempty] at others
          exact others c last

/-- **Joined words are kept as they are**, unless they start with a parenthesis. -/
theorem unwrap_joined {words : List String} (areWords : ∀ word ∈ words, IsWord word)
    (noParenthesis : ∀ word ∈ words.head?, word.toList.head? ≠ some '(') :
    unwrap (joined words) = joined words := by
  cases words with
  | nil => rfl
  | cons word words =>
      have isWord := areWords word List.mem_cons_self
      have head := head?_joined isWord words
      have trimmed :
          Text.trim (joined (word :: words)).toList = (joined (word :: words)).toList := by
        apply Text.trim_eq_self
        · rw [head]
          exact fun c first => isWord.not_isBlank c (List.mem_of_head? first)
        · exact getLast?_joined areWords
      have unwrapped : betweenParentheses? (joined (word :: words)).toList = none := by
        unfold betweenParentheses?
        split
        · rename_i rest text
          rw [text] at head
          exact (noParenthesis word rfl head.symm).elim
        · rfl
      rw [unwrap]
      simp only [trimmed, unwrapped, String.ofList_toList]

/-- A word that has no part in how groups of words are told apart. -/
def IsPlain (word : String) : Prop :=
  word ≠ "," ∧ bracketNesting word = 0

/-- **A comma outside brackets ends a group of plain words.** -/
theorem commaGroups_append {words : List String} (plain : ∀ word ∈ words, IsPlain word)
    (others : List String) :
    commaGroups 0 (words ++ "," :: others) = words :: commaGroups 0 others := by
  induction words with
  | nil => rw [List.nil_append, commaGroups, if_pos ⟨rfl, rfl⟩]
  | cons word words ih =>
      obtain ⟨noComma, nesting⟩ := plain word List.mem_cons_self
      rw [List.cons_append, commaGroups, if_neg fun both => noComma both.1, nesting, Int.add_zero,
        ih fun other member => plain other (List.mem_cons_of_mem _ member)]
      rfl

/-- Plain words without a comma are one group. -/
theorem commaGroups_plain {words : List String} (plain : ∀ word ∈ words, IsPlain word) :
    commaGroups 0 words = [words] := by
  induction words with
  | nil => rfl
  | cons word words ih =>
      obtain ⟨noComma, nesting⟩ := plain word List.mem_cons_self
      rw [commaGroups, if_neg fun both => noComma both.1, nesting, Int.add_zero,
        ih fun other member => plain other (List.mem_cons_of_mem _ member)]
      rfl

/-- Groups of words with a comma between them. -/
def separated (first : List String) (others : List (List String)) : List String :=
  first ++ others.flatMap fun group => "," :: group

/-- **Groups of plain words with commas between them are read back.** -/
theorem commaGroups_separated {first : List String} {others : List (List String)}
    (plain : ∀ group ∈ first :: others, ∀ word ∈ group, IsPlain word) :
    commaGroups 0 (separated first others) = first :: others := by
  induction others generalizing first with
  | nil =>
      rw [separated, List.flatMap_nil, List.append_nil]
      exact commaGroups_plain (plain first List.mem_cons_self)
  | cons group others ih =>
      have following := ih fun other member => plain other (List.mem_cons_of_mem _ member)
      rw [separated, List.flatMap_cons, List.cons_append,
        commaGroups_append (plain first List.mem_cons_self)]
      rw [separated] at following
      rw [following]

/-- **Labels that are not empty are told apart again.** -/
theorem labels_separated {first : List String} {others : List (List String)}
    (plain : ∀ group ∈ first :: others, ∀ word ∈ group, IsPlain word)
    (nonempty : ∀ group ∈ first :: others, group ≠ []) :
    labels (separated first others) = (first :: others).map joined := by
  have last : (first :: others).getLast? ≠ some [] := by
    intro empty
    exact nonempty [] (List.mem_of_getLast? empty) rfl
  rw [labels]
  simp only [commaGroups_separated plain, if_neg last]

end MiniVerilog.Source
