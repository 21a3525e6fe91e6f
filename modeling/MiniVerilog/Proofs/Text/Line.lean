import Mathlib.Data.List.Basic
import MiniVerilog.Text.Line

/-! # Lines of texts that are put together

Lines that are written with a line feed after each are read back
(`MiniVerilog.Text.lines_append`), and a text without line feeds is one line. A text that goes
on after a line feed keeps its lines (`MiniVerilog.Text.lines_append_feed`).
-/

namespace MiniVerilog.Text

/-- A character that ends no line belongs to the next line. -/
theorem lines_cons {c : Char} {cs : List Char} (noFeed : c ≠ '\n')
    (noReturn : ¬ (c = '\r' ∧ cs.head? = some '\n')) :
    lines (c :: cs) = (c :: (lines cs).headD []) :: (lines cs).tail := by
  rw [lines.eq_4 c cs noFeed fun rest isReturn feed => noReturn ⟨isReturn, feed ▸ rfl⟩]
  cases lines cs <;> rfl

/-- No line has a line feed. -/
theorem not_mem_of_mem_lines (cs : List Char) : ∀ line ∈ lines cs, '\n' ∉ line := by
  fun_induction lines cs with
  | case1 => exact List.forall_mem_nil _
  | case2 rest ih => exact List.forall_mem_cons.mpr ⟨List.not_mem_nil, ih⟩
  | case3 rest ih => exact List.forall_mem_cons.mpr ⟨List.not_mem_nil, ih⟩
  | case4 c rest noFeed _ _ ih =>
      refine List.forall_mem_singleton.mpr fun feed => ?_
      exact noFeed (List.mem_singleton.mp feed).symm
  | case5 c rest noFeed _ line following read ih =>
      rw [read, List.forall_mem_cons] at ih
      refine List.forall_mem_cons.mpr ⟨fun feed => ?_, ih.2⟩
      rcases List.mem_cons.mp feed with same | later
      · exact noFeed same.symm
      · exact ih.1 later

/-- A text without line feeds is one line. -/
theorem lines_of_not_mem {cs : List Char} (nonempty : cs ≠ []) (noFeed : '\n' ∉ cs) :
    lines cs = [cs] := by
  induction cs with
  | nil => exact (nonempty rfl).elim
  | cons c cs ih =>
      have here : c ≠ '\n' := fun same => noFeed (same ▸ List.mem_cons_self)
      have there : '\n' ∉ cs := fun member => noFeed (List.mem_cons_of_mem c member)
      rw [lines_cons here fun both => there (List.mem_of_head? both.2)]
      cases cs with
      | nil => rfl
      | cons d cs => rw [ih (List.cons_ne_nil d cs) there]; rfl

/-- **A line before a line feed is read back.** -/
theorem lines_append {cs : List Char} (noFeed : '\n' ∉ cs) (noReturn : '\r' ∉ cs)
    (rest : List Char) : lines (cs ++ '\n' :: rest) = cs :: lines rest := by
  induction cs with
  | nil => rfl
  | cons c cs ih =>
      have here : c ≠ '\n' := fun same => noFeed (same ▸ List.mem_cons_self)
      have return_ : ¬ (c = '\r' ∧ (cs ++ '\n' :: rest).head? = some '\n') :=
        fun both => noReturn (both.1 ▸ List.mem_cons_self)
      rw [List.cons_append, lines_cons here return_,
        ih (fun member => noFeed (List.mem_cons_of_mem c member))
          (fun member => noReturn (List.mem_cons_of_mem c member))]
      rfl

/-- Only the empty text has no lines. -/
theorem eq_nil_of_lines_eq_nil {cs : List Char} (none : lines cs = []) : cs = [] := by
  cases cs with
  | nil => rfl
  | cons c cs =>
      by_cases feed : c = '\n'
      · subst feed
        cases none
      · by_cases both : c = '\r' ∧ cs.head? = some '\n'
        · obtain ⟨rfl, next⟩ := both
          obtain ⟨rest, rfl⟩ := List.head?_eq_some_iff.mp next
          cases none
        · rw [lines_cons feed both] at none
          cases none

/-- **A text before a line feed has the lines it has alone**, but for its last line: that is
empty when the text ends in a line feed itself or is empty, and loses a carriage return. -/
theorem lines_append_feed (cs rest : List Char) :
    ∃ before last alone, lines cs = before ++ alone ∧
      lines (cs ++ '\n' :: rest) = before ++ last :: lines rest ∧
      (alone = [] ∧ last = [] ∨ alone = [last] ∨ alone = [last ++ ['\r']]) := by
  induction cs using lines.induct with
  | case1 => exact ⟨[], [], [], rfl, rfl, .inl ⟨rfl, rfl⟩⟩
  | case2 cs ih =>
      obtain ⟨before, last, alone, here, there, shape⟩ := ih
      exact ⟨[] :: before, last, alone, congrArg ([] :: ·) here, congrArg ([] :: ·) there, shape⟩
  | case3 cs ih =>
      obtain ⟨before, last, alone, here, there, shape⟩ := ih
      exact ⟨[] :: before, last, alone, congrArg ([] :: ·) here, congrArg ([] :: ·) there, shape⟩
  | case4 c cs noFeed noReturn none ih =>
      obtain rfl := eq_nil_of_lines_eq_nil none
      by_cases isReturn : c = '\r'
      · subst isReturn
        exact ⟨[], [], [['\r']], rfl, rfl, .inr (.inr rfl)⟩
      · refine ⟨[], [c], [[c]], ?_, ?_, .inr (.inl rfl)⟩
        · rw [lines_cons noFeed fun both => isReturn both.1]
          rfl
        · rw [List.singleton_append, lines_cons noFeed fun both => isReturn both.1]
          rfl
  | case5 c cs noFeed noReturn line following read ih =>
      obtain ⟨before, last, alone, here, there, shape⟩ := ih
      have goesOn : ¬ (c = '\r' ∧ (cs ++ '\n' :: rest).head? = some '\n') := by
        rintro ⟨isReturn, feed⟩
        cases cs with
        | nil => cases read
        | cons d cs => exact noReturn cs isReturn (congrArg (· :: cs) (Option.some.inj feed))
      have alone' : lines (c :: cs) = (c :: line) :: following := by
        rw [lines.eq_4 c cs noFeed noReturn, read]
      rw [List.cons_append, lines_cons noFeed goesOn, there, alone']
      rw [read] at here
      cases before with
      | cons first before =>
          cases here
          exact ⟨(c :: line) :: before, last, alone, rfl, rfl, shape⟩
      | nil =>
          refine ⟨[], c :: last, (c :: line) :: following, rfl, rfl, .inr ?_⟩
          rw [List.nil_append] at here
          rw [← here] at shape
          rcases shape with ⟨none, -⟩ | same | returned
          · cases none
          · cases same
            exact .inl rfl
          · cases returned
            exact .inr rfl

end MiniVerilog.Text
