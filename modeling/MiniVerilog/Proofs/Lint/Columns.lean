import MiniVerilog.Diagnostic.Render
import MiniVerilog.Proofs.Lint.Comments
import MiniVerilog.Proofs.Lint.Found

/-! # Columns of diagnostics

A diagnostic with a column is about a word that opens or ends a module. The column is that of the
word on the clean line, so it is the column on the line of the source as long as cleaning takes
away nothing before the word (`MiniVerilog.Lint.Report.ofSource_columns`).
-/

namespace MiniVerilog.Lint

/-- **A word stands at its place**, and all its characters are word characters. -/
theorem exists_of_mem_placedWords {offset : Nat} {cs : List Char} {place : PlacedWord}
    (inside : place ∈ placedWords offset cs) :
    ∃ before after, cs = before ++ place.word.toList ++ after ∧
      place.offset = offset + before.length ∧ place.word.toList ≠ [] ∧
      ∀ c ∈ place.word.toList, isWordChar c = true := by
  fun_induction placedWords offset cs with
  | case1 => cases inside
  | case2 offset c rest word more ih =>
      rcases List.mem_cons.mp inside with rfl | later
      · refine ⟨[], rest.dropWhile isWordChar, ?_, rfl, ?_, ?_⟩
        · rw [String.toList_ofList, List.nil_append, List.cons_append]
          exact congrArg (c :: ·) List.takeWhile_append_dropWhile.symm
        · rw [String.toList_ofList]
          exact List.cons_ne_nil _ _
        · rw [String.toList_ofList]
          exact List.forall_mem_cons.mpr ⟨word, fun d member => List.mem_takeWhile_imp member⟩
      · obtain ⟨before, after, same, place, characters⟩ := ih later
        refine ⟨c :: more ++ before, after, ?_, ?_, characters⟩
        · rw [List.append_assoc, List.append_assoc, ← List.append_assoc before, ← same]
          exact congrArg (c :: ·) List.takeWhile_append_dropWhile.symm
        · rw [place, List.length_append, List.length_cons]
          omega
  | case3 offset c rest _ ih =>
      obtain ⟨before, after, same, place, characters⟩ := ih inside
      refine ⟨c :: before, after, congrArg (c :: ·) same, ?_, characters⟩
      rw [place, List.length_cons]
      omega

/-- A word character is not what a comment or a string leaves behind. -/
theorem visible_of_isWordChar {c : Char} (word : isWordChar c = true) : c ≠ ' ' ∧ c ≠ '"' := by
  constructor
  · rintro rfl
    cases word
  · rintro rfl
    cases word

/-- A string that is closed has a body, after which anything may stand. -/
theorem exists_of_skipString {cs : List Char} (closed : skipString cs ≠ []) :
    ∃ body, cs = body ++ skipString cs ∧ body ≠ [] ∧
      ∀ other, skipString (body ++ other) = other := by
  fun_induction skipString cs with
  | case1 => exact absurd rfl closed
  | case2 rest => exact ⟨['"'], rfl, List.cons_ne_nil _ _, fun other => rfl⟩
  | case3 escaped rest ih =>
      obtain ⟨body, same, -, anything⟩ := ih closed
      exact ⟨'\\' :: escaped :: body, congrArg ('\\' :: escaped :: ·) same,
        List.cons_ne_nil _ _, anything⟩
  | case4 c rest noQuote noEscape ih =>
      obtain ⟨body, same, -, anything⟩ := ih closed
      refine ⟨c :: body, congrArg (c :: ·) same, List.cons_ne_nil _ _, fun other => ?_⟩
      have noBackslash : c ≠ '\\' := by
        rintro rfl
        cases rest with
        | nil => exact closed rfl
        | cons escaped rest => exact noEscape escaped rest rfl rfl
      rw [List.cons_append, skipString.eq_4 c _ noQuote fun _ _ same => absurd same noBackslash]
      exact anything other

/-- What is left of a comment begins with a space. -/
theorem head_clean_true {cs after : List Char} {c : Char}
    (cleaned : (clean true cs).1 = c :: after) : c = ' ' := by
  induction cs with
  | nil =>
      rw [clean] at cleaned
      cases cleaned
  | cons first rest ih =>
      by_cases ends : first = '*' ∧ ∃ following, rest = '/' :: following
      · obtain ⟨rfl, following, rfl⟩ := ends
        rw [clean] at cleaned
        exact (List.cons.inj cleaned).1.symm
      · rw [clean.eq_3 first rest fun following star slash => ends ⟨star, following, slash⟩]
          at cleaned
        exact ih cleaned

/-- The first text is cleaned to the second one, which is no longer, and ends in code. -/
structure CleansTo (inComment : Bool) (cs left : List Char) : Prop where
  clean_eq : clean inComment cs = (left, false)
  length_le : left.length ≤ cs.length

/-- **A character of a clean line comes from the line.** What stands before it in the line is
cleaned to what stands before it in the clean line. -/
theorem exists_of_clean {inComment : Bool} {cs before after : List Char} {c : Char}
    (cleaned : (clean inComment cs).1 = before ++ c :: after) (word : isWordChar c = true) :
    ∃ front back, cs = front ++ c :: back ∧ CleansTo inComment front before ∧
      (clean false back).1 = after := by
  have visible := visible_of_isWordChar word
  fun_induction clean inComment cs generalizing before with
  | case1 inComment => exact absurd cleaned (by simp)
  | case2 rest ih =>
      cases before with
      | nil => exact absurd (List.cons.inj cleaned).1.symm visible.1
      | cons space before =>
          obtain ⟨rfl, others⟩ := List.cons.inj cleaned
          obtain ⟨front, back, rfl, ⟨left, length⟩, right⟩ := ih others
          refine ⟨'*' :: '/' :: front, back, rfl, ⟨by rw [clean, left], ?_⟩, right⟩
          simp only [List.length_cons]
          omega
  | case3 first rest goesOn ih =>
      obtain ⟨front, back, rfl, ⟨left, length⟩, right⟩ := ih cleaned
      refine ⟨first :: front, back, rfl, ⟨?_, Nat.le_succ_of_le length⟩, right⟩
      rw [clean.eq_3 first front, left]
      rintro following star rfl
      exact goesOn _ star rfl
  | case4 => exact absurd cleaned (by simp)
  | case5 rest ih =>
      obtain ⟨front, back, rfl, ⟨left, length⟩, right⟩ := ih cleaned
      refine ⟨'/' :: '*' :: front, back, rfl, ⟨by rw [clean, left], ?_⟩, right⟩
      exact Nat.le_succ_of_le (Nat.le_succ_of_le length)
  | case6 rest ih =>
      -- A string leaves its two quotes, and the character is neither of them.
      obtain _ | ⟨opening, _ | ⟨closing, before⟩⟩ := before
      · exact absurd (List.cons.inj cleaned).1.symm visible.2
      · exact absurd (List.cons.inj (List.cons.inj cleaned).2).1.symm visible.2
      · simp only [List.cons_append, List.cons.injEq] at cleaned
        obtain ⟨rfl, rfl, others⟩ := cleaned
        obtain ⟨front, back, same, ⟨left, length⟩, right⟩ := ih others
        have closed : skipString rest ≠ [] := by simp [same]
        obtain ⟨body, whole, some, anything⟩ := exists_of_skipString closed
        refine ⟨'"' :: (body ++ front), back, ?_, ⟨by rw [clean, anything, left], ?_⟩, right⟩
        · rw [List.cons_append, List.append_assoc, ← same, ← whole]
        · have bodyLength := List.length_pos_iff.mpr some
          simp only [List.length_cons, List.length_append]
          omega
  | case7 first rest noLine noBlock noQuote ih =>
      cases before with
      | nil =>
          obtain ⟨rfl, others⟩ := List.cons.inj cleaned
          exact ⟨[], rest, rfl, ⟨by rw [clean], Nat.le_refl _⟩, others⟩
      | cons copy before =>
          obtain ⟨rfl, others⟩ := List.cons.inj cleaned
          obtain ⟨front, back, rfl, ⟨left, length⟩, right⟩ := ih others
          refine ⟨first :: front, back, rfl, ⟨?_, Nat.succ_le_succ length⟩, right⟩
          rw [clean.eq_7 first front, left]
          · rintro following slash rfl
            exact noLine _ slash rfl
          · rintro following slash rfl
            exact noBlock _ slash rfl
          · exact noQuote

/-- After code a word character comes from the character there. -/
theorem exists_of_clean_cons {cs after : List Char} {c : Char}
    (cleaned : (clean false cs).1 = c :: after) (word : isWordChar c = true) :
    ∃ rest, cs = c :: rest ∧ (clean false rest).1 = after := by
  have visible := visible_of_isWordChar word
  cases cs with
  | nil =>
      rw [clean] at cleaned
      cases cleaned
  | cons first rest =>
      by_cases isLine : first = '/' ∧ ∃ following, rest = '/' :: following
      · obtain ⟨rfl, following, rfl⟩ := isLine
        rw [clean] at cleaned
        cases cleaned
      by_cases isBlock : first = '/' ∧ ∃ following, rest = '*' :: following
      · obtain ⟨rfl, following, rfl⟩ := isBlock
        rw [clean] at cleaned
        exact absurd (head_clean_true cleaned) visible.1
      by_cases isQuote : first = '"'
      · obtain rfl := isQuote
        rw [clean] at cleaned
        exact absurd (List.cons.inj cleaned).1.symm visible.2
      rw [clean.eq_7 first rest (fun following slash next => isLine ⟨slash, following, next⟩)
        (fun following slash next => isBlock ⟨slash, following, next⟩) isQuote] at cleaned
      obtain ⟨rfl, others⟩ := List.cons.inj cleaned
      exact ⟨rest, rfl, others⟩

/-- A word at the front of a cleaned line stands at the front of the line. -/
theorem exists_of_clean_append {cs word after : List Char}
    (cleaned : (clean false cs).1 = word ++ after) (characters : ∀ c ∈ word, isWordChar c = true) :
    ∃ rest, cs = word ++ rest := by
  induction word generalizing cs with
  | nil => exact ⟨cs, rfl⟩
  | cons c word ih =>
      obtain ⟨first, others⟩ := List.forall_mem_cons.mp characters
      obtain ⟨rest, rfl, left⟩ := exists_of_clean_cons cleaned first
      obtain ⟨more, rfl⟩ := ih left others
      exact ⟨more, rfl⟩

/-- **A word of a clean line is a word of the line.** -/
theorem exists_of_clean_word {inComment : Bool} {cs before word after : List Char}
    (cleaned : (clean inComment cs).1 = before ++ word ++ after) (some : word ≠ [])
    (characters : ∀ c ∈ word, isWordChar c = true) :
    ∃ front back, cs = front ++ word ++ back ∧ CleansTo inComment front before := by
  obtain ⟨c, word, rfl⟩ := List.exists_cons_of_ne_nil some
  obtain ⟨first, others⟩ := List.forall_mem_cons.mp characters
  rw [List.append_assoc, List.cons_append] at cleaned
  obtain ⟨front, back, rfl, left, right⟩ := exists_of_clean cleaned first
  obtain ⟨rest, rfl⟩ := exists_of_clean_append right others
  exact ⟨front, rest, by rw [List.append_assoc, List.cons_append], left⟩

/-- A clean line is the line cleaned after the lines before it. -/
theorem getElem?_cleanLines (inComment : Bool) (lines : List (List Char)) (index : Nat) :
    (cleanLines inComment lines)[index]? =
      lines[index]?.map fun line => (clean (openAfter inComment (lines.take index)) line).1 := by
  induction lines generalizing inComment index with
  | nil => rfl
  | cons line lines ih =>
      cases index with
      | zero => rfl
      | succ index => exact ih (clean inComment line).2 index

/-- A word that opens or ends a module stands in the line of a diagnostic from a column on. -/
def PointsAtWord (source : SourceFile) (diagnostic : Diagnostic) (column : Nat) : Prop :=
  ∃ line word, source.line? diagnostic.line = some line ∧ word ∈ moduleWords ∧
    word.toList <+: line.toList.drop (column - 1)

/-- A word that opens or ends a module stands in the line of a diagnostic behind a text. The column
is counted on what cleaning leaves of this text, so the word does not stand to its left. -/
structure PointsBehind (before : List Char) (source : SourceFile) (diagnostic : Diagnostic)
    (column : Nat) : Prop where
  line : ∃ word after, word ∈ moduleWords ∧
    source.line? diagnostic.line = some (String.ofList (before ++ word.toList ++ after))
  cleaned : ∃ left, column = left.length + 1 ∧
    CleansTo (openAfter false ((Text.lines source.content.toList).take (diagnostic.line - 1)))
      before left

/-- A column that points behind some text points at the word there. -/
theorem PointsBehind.pointsAtWord {before : List Char} {source : SourceFile}
    {diagnostic : Diagnostic} {column : Nat}
    (points : PointsBehind before source diagnostic column) (same : column = before.length + 1) :
    PointsAtWord source diagnostic column := by
  obtain ⟨word, after, opensOrEnds, line⟩ := points.line
  refine ⟨_, word, line, opensOrEnds, after, ?_⟩
  rw [String.toList_ofList, same, Nat.add_sub_cancel, List.append_assoc, List.drop_left]

/-- The lines of a source are found by their numbers. -/
theorem line?_of_getElem? {source : SourceFile} {line : List Char} {index : Nat}
    (inside : (Text.lines source.content.toList)[index]? = some line) :
    source.line? (1 + index) = some (String.ofList line) := by
  rw [SourceFile.line?, if_neg (by omega), Text.linesOf, List.getElem?_map, Nat.add_sub_cancel_left,
    inside, Option.map_some]

/-- What is found at a word of a clean line points behind what stands before the word. -/
theorem exists_pointsBehind {source : SourceFile} {index : Nat} {text : List Char}
    (inside : (cleanLines false (Text.lines source.content.toList))[index]? = some text)
    {place : PlacedWord} (placed : place ∈ placedWords 0 text)
    (opensOrEnds : place.word ∈ moduleWords) (diagnostic : Diagnostic)
    (line : diagnostic.line = 1 + index) :
    ∃ before, PointsBehind before source diagnostic (place.offset + 1) := by
  rw [getElem?_cleanLines, Option.map_eq_some_iff] at inside
  obtain ⟨raw, here, rfl⟩ := inside
  obtain ⟨left, after, split, offset, some, characters⟩ := exists_of_mem_placedWords placed
  obtain ⟨before, back, rfl, cleans⟩ := exists_of_clean_word split some characters
  rw [Nat.zero_add] at offset
  refine ⟨before, ⟨place.word, back, opensOrEnds, ?_⟩, left, congrArg (· + 1) offset, ?_⟩
  · rw [line, line?_of_getElem? here]
  · rwa [line, Nat.add_sub_cancel_left]

namespace Report

/-- What is found at the end of a text has no column. -/
theorem column?_of_mem_leftOpen {survey : Survey} {lastLine : Nat} {entry : Nat × Finding}
    (member : entry ∈ survey.leftOpen lastLine) : entry.2.column? = none := by
  unfold Survey.leftOpen at member
  simp only [List.mem_append] at member
  rcases member with here | here | here | here | here <;>
    exact congrArg (fun entry => entry.2.column?) (Survey.eq_of_mem_findingUnless here)

/-- **A diagnostic with a column points at a word that opens or ends a module**, as long as nothing
is taken away before that word when the line is cleaned. -/
theorem ofSource_columns (source : SourceFile) {diagnostic : Diagnostic}
    (reported : diagnostic ∈ (ofSource source.content).errors ++ (ofSource source.content).warnings)
    {column : Nat} (pointed : diagnostic.column = some column) :
    ∃ before, PointsBehind before source diagnostic column ∧
      (column = before.length + 1 → PointsAtWord source diagnostic column) := by
  obtain ⟨found, goesOn, known⟩ := ofSource_goesOn source.content
  obtain ⟨⟨line, finding⟩, member, rfl⟩ := goesOn.exists_of_mem reported
  change finding.column? = some column at pointed
  rcases List.mem_append.mp member with onLine | atEnd
  · obtain ⟨index, text, inside, same, foundOn⟩ := known _ onLine
    cases foundOn with
    | segment known =>
        rw [column?_of_segmentCodes known] at pointed
        cases pointed
    | word placed opensOrEnds _ atWord =>
        obtain rfl := Option.some.inj (atWord.symm.trans pointed)
        obtain ⟨before, points⟩ := exists_pointsBehind inside placed opensOrEnds
          (finding.diagnostic line) same
        exact ⟨before, points, points.pointsAtWord⟩
  · rw [column?_of_mem_leftOpen atEnd] at pointed
    cases pointed

/-- A module without ports behind a comment, of which a space is left: the column is 3. -/
theorem ofSource_columns_comment :
    let source : SourceFile := ⟨"m.v", "/* top */ module m; endmodule"⟩
    let diagnostic := (Finding.missingPortList 3).diagnostic 1
    diagnostic ∈ (ofSource source.content).errors ++ (ofSource source.content).warnings ∧
      diagnostic.column = some 3 ∧ ∃ before, PointsBehind before source diagnostic 3 ∧
        (3 = before.length + 1 → PointsAtWord source diagnostic 3) := by
  intro source diagnostic
  have reported : diagnostic ∈
      (ofSource source.content).errors ++ (ofSource source.content).warnings := by decide +kernel
  exact ⟨reported, rfl, ofSource_columns source reported rfl⟩

/-- There the line goes on with the comment, not with the word. -/
theorem not_pointsAtWord_comment :
    let source : SourceFile := ⟨"m.v", "/* top */ module m; endmodule"⟩
    let diagnostic := (Finding.missingPortList 3).diagnostic 1
    diagnostic ∈ (ofSource source.content).errors ∧ diagnostic.column = some 3 ∧
      ¬ PointsAtWord source diagnostic 3 := by
  intro source diagnostic
  refine ⟨by decide +kernel, rfl, ?_⟩
  rintro ⟨line, word, found, opensOrEnds, starts⟩
  have here : source.line? 1 = some "/* top */ module m; endmodule" := by decide +kernel
  obtain rfl := Option.some.inj (here.symm.trans found)
  have other : ∀ word ∈ moduleWords,
      ¬ word.toList <+: "/* top */ module m; endmodule".toList.drop 2 := by decide
  exact other word opensOrEnds starts

end Report

end MiniVerilog.Lint
