import MiniVerilog.Proofs.Source.Text
import MiniVerilog.Proofs.Text.Line

/-! # Words and lines that are told apart again

Words with one space between them are told apart again (`MiniVerilog.Text.wordsOf_joined`),
and so are lines that have no blanks but spaces (`MiniVerilog.Text.linesOf_join`).
-/

namespace MiniVerilog.Text

open Source (IsWord joined)

theorem map_ofList_toList (texts : List String) :
    (texts.map String.toList).map String.ofList = texts := by
  rw [List.map_map]
  exact (List.map_congr_left fun text _ => String.ofList_toList).trans (List.map_id texts)

/-- A word is split into itself. -/
theorem words_of_isWord {word : String} (isWord : IsWord word) :
    words word.toList = [word.toList] := by
  have kept : (!word.toList.isEmpty) = true := by
    rw [Bool.not_eq_true', List.isEmpty_eq_false_iff]
    exact isWord.toList_ne_nil
  rw [words, List.splitOnP_eq_singleton isWord.not_isBlank,
    List.filter_cons_of_pos (p := fun word : List Char => !word.isEmpty) kept]
  rfl

/-- A blank ends a word. -/
theorem words_append_blank {word : String} (isWord : IsWord word) {blank : Char}
    (isBlank : isBlank blank = true) (rest : List Char) :
    words (word.toList ++ blank :: rest) = word.toList :: words rest := by
  have kept : (!word.toList.isEmpty) = true := by
    rw [Bool.not_eq_true', List.isEmpty_eq_false_iff]
    exact isWord.toList_ne_nil
  rw [words, List.splitOnP_append_cons_of_forall_mem isWord.not_isBlank blank isBlank,
    List.filter_cons_of_pos (p := fun word : List Char => !word.isEmpty) kept]
  rfl

/-- **Words with one space between them are told apart again.** -/
theorem wordsOf_joined {listed : List String} (areWords : ∀ word ∈ listed, IsWord word) :
    wordsOf (joined listed) = listed := by
  have characters : words (joined listed).toList = listed.map String.toList := by
    induction listed with
    | nil => rfl
    | cons word listed ih =>
        have others := ih fun other member => areWords other (List.mem_cons_of_mem _ member)
        have isWord := areWords word List.mem_cons_self
        cases listed with
        | nil =>
            rw [joined, String.intercalate_singleton]
            exact words_of_isWord isWord
        | cons next listed =>
            rw [Source.joined_cons_cons, words_append_blank isWord (by decide), others]
            rfl
  rw [wordsOf, characters, map_ofList_toList]

/-- The only blanks of a line are spaces. -/
def IsLine (line : String) : Prop :=
  ∀ c ∈ line.toList, isBlank c = true → c = ' '

theorem isLine_iff {line : String} :
    IsLine line ↔ line.toList.all (fun c => !isBlank c || c == ' ') = true := by
  simp only [IsLine, List.all_eq_true, Bool.or_eq_true, Bool.not_eq_true', beq_iff_eq,
    or_iff_not_imp_left, Bool.not_eq_false]

instance (line : String) : Decidable (IsLine line) :=
  decidable_of_iff' _ isLine_iff

theorem isLine_of_isBlank_eq_false {line : String}
    (noBlank : ∀ c ∈ line.toList, isBlank c = false) : IsLine line :=
  fun c member blank => absurd blank (ne_true_of_eq_false (noBlank c member))

/-- Two lines side by side are a line. -/
theorem IsLine.append {first second : String} (firstLine : IsLine first)
    (secondLine : IsLine second) : IsLine (first ++ second) := by
  intro c member
  rw [String.toList_append, List.mem_append] at member
  rcases member with here | there
  · exact firstLine c here
  · exact secondLine c there

/-- Joined words are a line. -/
theorem isLine_joined {listed : List String} (areWords : ∀ word ∈ listed, IsWord word) :
    IsLine (joined listed) := by
  intro c member blank
  rcases Source.mem_joined member with space | ⟨word, inside, found⟩
  · exact space
  · rw [(areWords word inside).not_isBlank c found] at blank
    cases blank

theorem IsLine.not_mem {line : String} (isLine : IsLine line) {c : Char}
    (blank : isBlank c = true) (noSpace : c ≠ ' ') : c ∉ line.toList :=
  fun member => noSpace (isLine c member blank)

/-- **Lines that are written one after another are told apart again.** -/
theorem linesOf_join {listed : List String} (areLines : ∀ line ∈ listed, IsLine line) :
    linesOf (String.join (listed.map (· ++ "\n"))) = listed := by
  have characters : lines (String.join (listed.map (· ++ "\n"))).toList =
      listed.map String.toList := by
    induction listed with
    | nil => rfl
    | cons line listed ih =>
        have others := ih fun other member => areLines other (List.mem_cons_of_mem _ member)
        have isLine := areLines line List.mem_cons_self
        have text : (String.join ((line :: listed).map (· ++ "\n"))).toList =
            line.toList ++ '\n' :: (String.join (listed.map (· ++ "\n"))).toList := by
          rw [List.map_cons, String.join_cons, String.toList_append, String.toList_append,
            List.append_assoc]
          rfl
        rw [text, lines_append (isLine.not_mem (by decide) (by decide))
          (isLine.not_mem (by decide) (by decide)), others]
        rfl
  rw [linesOf, characters, map_ofList_toList]

end MiniVerilog.Text
