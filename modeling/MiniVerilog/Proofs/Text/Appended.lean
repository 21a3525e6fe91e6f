import MiniVerilog.Proofs.Text.Line

/-! # Texts that go on in one line

A text that is written at the end of one line of another text changes that line only
(`MiniVerilog.Text.lines_appendToLine`).
-/

namespace MiniVerilog.Text

/-- Writes a text at the end of the line with an index, before its line end. -/
def appendToLine (addition : List Char) : Nat → List Char → List Char
  | _, [] => addition
  | 0, '\n' :: rest => addition ++ '\n' :: rest
  | index + 1, '\n' :: rest => '\n' :: appendToLine addition index rest
  | 0, '\r' :: '\n' :: rest => addition ++ '\r' :: '\n' :: rest
  | index + 1, '\r' :: '\n' :: rest => '\r' :: '\n' :: appendToLine addition index rest
  | index, c :: rest => c :: appendToLine addition index rest

/-- A line before a line feed is read back, but for a carriage return at its end. -/
theorem lines_append_lineFeed {cs : List Char} (noFeed : '\n' ∉ cs) (rest : List Char) :
    ∃ line, lines (cs ++ '\n' :: rest) = line :: lines rest ∧
      (line = cs ∨ line ++ ['\r'] = cs) := by
  induction cs with
  | nil => exact ⟨[], rfl, .inl rfl⟩
  | cons c cs ih =>
      have here : c ≠ '\n' := fun same => noFeed (same ▸ List.mem_cons_self)
      have there : '\n' ∉ cs := fun member => noFeed (List.mem_cons_of_mem c member)
      obtain ⟨line, read, shape⟩ := ih there
      by_cases ends : c = '\r' ∧ (cs ++ '\n' :: rest).head? = some '\n'
      · obtain ⟨rfl, feed⟩ := ends
        cases cs with
        | nil => exact ⟨[], rfl, .inr rfl⟩
        | cons d cs => exact (there (List.mem_of_head? feed)).elim
      · refine ⟨c :: line, ?_, shape.imp (congrArg (c :: ·)) (congrArg (c :: ·))⟩
        rw [List.cons_append, lines_cons here ends, read]
        rfl

/-- A line before a carriage return and a line feed is read back. -/
theorem lines_append_return {cs : List Char} (noFeed : '\n' ∉ cs) (rest : List Char) :
    lines (cs ++ '\r' :: '\n' :: rest) = cs :: lines rest := by
  induction cs with
  | nil => rfl
  | cons c cs ih =>
      have here : c ≠ '\n' := fun same => noFeed (same ▸ List.mem_cons_self)
      have there : '\n' ∉ cs := fun member => noFeed (List.mem_cons_of_mem c member)
      have goesOn : ¬ (c = '\r' ∧ (cs ++ '\r' :: '\n' :: rest).head? = some '\n') := by
        rintro ⟨-, feed⟩
        cases cs with
        | nil => cases feed
        | cons d cs => exact there (List.mem_of_head? feed)
      rw [List.cons_append, lines_cons here goesOn, ih there]
      rfl

/-- An addition without a line end starts no line. -/
theorem head?_appendToLine {addition : List Char} (noFeed : '\n' ∉ addition) {index : Nat}
    {cs : List Char} (feed : (appendToLine addition index cs).head? = some '\n') :
    cs.head? = some '\n' := by
  fun_induction appendToLine addition index cs with
  | case1 => exact (noFeed (List.mem_of_head? feed)).elim
  | case2 => rfl
  | case3 => rfl
  | case4 rest =>
      cases addition with
      | nil => cases feed
      | cons c addition => exact (noFeed (List.mem_of_head? feed)).elim
  | case5 => cases feed
  | case6 index c rest =>
      rw [List.head?_cons] at feed ⊢
      exact feed

/-- A character that ends no line still belongs to the next line. -/
theorem lines_appendToLine_cons {addition : List Char} (noFeed : '\n' ∉ addition) (index : Nat)
    {c : Char} {rest : List Char} (notFeed : c ≠ '\n')
    (notReturn : ¬ (c = '\r' ∧ rest.head? = some '\n')) :
    lines (appendToLine addition index (c :: rest)) =
      (c :: (lines (appendToLine addition index rest)).headD []) ::
        (lines (appendToLine addition index rest)).tail := by
  have goesOn : ∀ after, c = '\r' → rest = '\n' :: after → False :=
    fun after ends feed => notReturn ⟨ends, feed ▸ rfl⟩
  rw [appendToLine.eq_6 addition index c rest (fun _ => notFeed) (fun _ _ => notFeed)
    (fun after _ => goesOn after) (fun _ after _ => goesOn after)]
  exact lines_cons notFeed fun ends => notReturn ⟨ends.1, head?_appendToLine noFeed ends.2⟩

/-- **Only the line with the index goes on.** When it goes on with a carriage return, that may
belong to the line end. -/
theorem lines_appendToLine {addition : List Char} (noFeed : '\n' ∉ addition)
    {cs : List Char} {before after : List (List Char)} {line : List Char}
    (read : lines cs = before ++ line :: after) :
    ∃ suffix, lines (appendToLine addition before.length cs) = before ++ (line ++ suffix) :: after ∧
      (suffix = addition ∨ suffix ++ ['\r'] = addition) := by
  induction cs using lines.induct generalizing before line with
  | case1 => simp [lines] at read
  | case2 rest ih =>
      cases before with
      | nil =>
          cases read
          exact lines_append_lineFeed noFeed rest
      | cons first before =>
          obtain ⟨rfl, others⟩ := List.cons.inj read
          obtain ⟨suffix, changed, shape⟩ := ih others
          exact ⟨suffix, congrArg ([] :: ·) changed, shape⟩
  | case3 rest ih =>
      cases before with
      | nil =>
          cases read
          exact ⟨addition, lines_append_return noFeed rest, .inl rfl⟩
      | cons first before =>
          obtain ⟨rfl, others⟩ := List.cons.inj read
          obtain ⟨suffix, changed, shape⟩ := ih others
          exact ⟨suffix, congrArg ([] :: ·) changed, shape⟩
  | case4 c rest notFeed notReturn none ih =>
      -- The last character of the text ends no line, so its only line is the one that goes on.
      obtain rfl := eq_nil_of_lines_eq_nil none
      have alone : lines [c] = [[c]] := by
        rw [lines.eq_4 c [] notFeed notReturn, none]
      have whole : [[c]] = before ++ line :: after := alone.symm.trans read
      obtain ⟨rfl, rfl, rfl⟩ : before = [] ∧ line = [c] ∧ after = [] := by
        cases before <;> simp_all
      refine ⟨addition, ?_, .inl rfl⟩
      rw [lines_appendToLine_cons noFeed _ notFeed fun ends => Option.some_ne_none _ ends.2.symm,
        appendToLine]
      cases addition with
      | nil => rfl
      | cons d addition =>
          rw [lines_of_not_mem (List.cons_ne_nil d addition) noFeed]
          rfl
  | case5 c rest notFeed notReturn next following found ih =>
      have goesOn : ¬ (c = '\r' ∧ rest.head? = some '\n') := by
        rintro ⟨ends, feed⟩
        obtain ⟨after, rfl⟩ := List.head?_eq_some_iff.mp feed
        exact notReturn after ends rfl
      -- The character goes to the front of the line that the rest starts with.
      rw [lines.eq_4 c rest notFeed notReturn, found] at read
      rw [lines_appendToLine_cons noFeed _ notFeed goesOn]
      cases before with
      | nil =>
          cases read
          obtain ⟨suffix, changed, shape⟩ :=
            ih (show lines rest = [] ++ next :: after from found)
          rw [List.length_nil] at changed ⊢
          rw [changed]
          exact ⟨suffix, rfl, shape⟩
      | cons first before =>
          obtain ⟨rfl, rfl⟩ := List.cons.inj read
          obtain ⟨suffix, changed, shape⟩ :=
            ih (show lines rest = (next :: before) ++ line :: after from found)
          rw [List.length_cons] at changed ⊢
          rw [changed]
          exact ⟨suffix, rfl, shape⟩

end MiniVerilog.Text
