import MiniVerilog.Proofs.Lint.Written
import MiniVerilog.Proofs.Source.Header

/-! # Headers, as the linter sees them

The linter goes through a header line by line. From the line of a group it collects the ports of
the group and keeps the rest of what it knows (`MiniVerilog.Lint.checkLine_group`), so at the end
nothing is open and nothing is found (`MiniVerilog.Header.ofSource_text`).
-/

namespace MiniVerilog

open Token (Part spelled Written Delimited)
open Header (openingParts closingParts lastParts written_openingParts written_closingParts
  written_lastParts)

namespace Lint

/-- The words that the linter counts. -/
def counted : List String :=
  ["begin", "end", "case", "casex", "casez", "endcase", "module", "macromodule", "endmodule"]

/-- A word that the linter does not count leaves the survey as it is. -/
theorem countWord_of_not_mem {place : PlacedWord} (other : place.word ∉ counted) (line : Nat)
    (text : List Char) (survey : Survey) : survey.countWord line text place = survey := by
  unfold Survey.countWord
  split
  all_goals first
    | rfl
    | (rename_i same; exact (other (same ▸ by decide)).elim)

/-- A line without words that are counted leaves the survey as it is. -/
theorem foldl_countWord {places : List PlacedWord}
    (others : ∀ place ∈ places, place.word ∉ counted) (line : Nat) (text : List Char)
    (survey : Survey) : places.foldl (Survey.countWord line text) survey = survey := by
  induction places with
  | nil => rfl
  | cons place places ih =>
      obtain ⟨first, following⟩ := List.forall_mem_cons.mp others
      rw [List.foldl_cons, countWord_of_not_mem first, ih following]

/-- The words that a declaration of ports or parameters starts with. -/
def collected : List String :=
  ["input", "output", "inout", "parameter", "localparam"]

/-- A segment that starts with no declaration adds nothing to the report. -/
theorem collect_of_not_mem {atoms : List String} (others : ∀ atom ∈ atoms, atom ∉ collected)
    (report : Report) (line : Nat) : report.collect line atoms = report := by
  induction atoms with
  | nil => rw [Report.collect]
  | cons atom atoms ih =>
      obtain ⟨first, following⟩ := List.forall_mem_cons.mp others
      have noDirection : Direction.ofSpelling? atom = none := by
        refine List.find?_eq_none.mpr fun direction _ same => first ?_
        rw [decide_eq_true_eq] at same
        rw [← same]
        cases direction <;> decide
      have noParameter : (atom == "parameter" || atom == "localparam") = false := by
        rw [Bool.or_eq_false_iff, beq_eq_false_iff_ne, beq_eq_false_iff_ne]
        exact ⟨fun same => first (same ▸ by decide), fun same => first (same ▸ by decide)⟩
      rw [Report.collect, noDirection]
      simp only [noParameter, Bool.false_eq_true, ↓reduceIte]
      exact ih following

/-- The words that are no name in a header. -/
def unusable : List String :=
  Keyword.all.map Keyword.spelling ++ reservedNames

/-- A name of a header is none of the words that cannot be one. -/
theorem not_mem_unusable {name : String} (isName : IsHeaderName name) : name ∉ unusable := by
  intro member
  rcases List.mem_append.mp member with keyword | reserved
  · obtain ⟨keyword, -, same⟩ := List.mem_map.mp keyword
    exact isName.1.ne_spelling keyword same.symm
  · exact isName.2 reserved

/-- A name is none of the words that mean something. -/
theorem not_mem_of_subset {name : String} (isName : IsHeaderName name) {words : List String}
    (inside : words ⊆ unusable) : name ∉ words :=
  fun member => not_mem_unusable isName (inside member)

/-- What the lexer reads as a name, the linter takes for a name. -/
theorem isName_of_isName {name : String} (known : Token.IsName name) : isName name = true := by
  obtain ⟨start, characters, -⟩ := known
  have noTick : name.toList.contains '\'' = false := by
    rw [Bool.eq_false_iff]
    intro tick
    exact absurd (characters _ (List.contains_iff_mem.mp tick)) (by decide)
  rw [isName, noTick]
  cases letters : name.toList with
  | nil =>
      rw [letters] at start
      cases start
  | cons first rest =>
      rw [letters] at start
      exact Bool.and_eq_true_iff.mpr ⟨start, rfl⟩

/-- The linter takes a name of a header for the name of a port. -/
theorem isPortName_of_isHeaderName {name : String} (known : IsHeaderName name) :
    Report.isPortName name = true := by
  have other : isDeclarationWord name = false := by
    rw [Bool.eq_false_iff]
    intro word
    exact not_mem_of_subset known (by decide) (List.contains_iff_mem.mp word)
  rw [Report.isPortName, isName_of_isName known.1, other]
  rfl

section Parts

variable {group : PortGroup}

/-- Names stand between commas. -/
def commaSeparated : List String → List String
  | [] => []
  | [name] => [name]
  | name :: next :: names => name :: "," :: commaSeparated (next :: names)

/-- The atoms of a list of names are the names and the commas between them. -/
theorem texts_nameParts (names : List String) : texts (nameParts names) = commaSeparated names := by
  induction names with
  | nil => rfl
  | cons name names ih =>
      cases names with
      | nil => rfl
      | cons next names => exact congrArg (fun others => name :: "," :: others) ih

/-- Between names stand only commas and spaces. -/
theorem marks_nameParts (names : List String) :
    ∀ c ∈ marks (nameParts names), c = ',' ∨ c = ' ' := by
  induction names with
  | nil => exact List.forall_mem_nil _
  | cons name names ih =>
      cases names with
      | nil => exact List.forall_mem_nil _
      | cons next names =>
          exact List.forall_mem_cons.mpr ⟨.inl rfl, List.forall_mem_cons.mpr ⟨.inr rfl, ih⟩⟩

/-- The words of a list of names are the names. -/
theorem lexeme_mem_nameParts {names : List String} {kind : TokenKind} {text : String}
    (member : .lexeme kind text ∈ nameParts names) : text ∈ names := by
  induction names with
  | nil => cases member
  | cons name names ih =>
      cases names with
      | nil =>
          cases List.mem_singleton.mp member
          exact List.mem_cons_self
      | cons next names =>
          rcases List.mem_cons.mp member with same | later
          · cases same
            exact List.mem_cons_self
          · rcases List.mem_cons.mp later with same | later
            · cases same
            · rcases List.mem_cons.mp later with same | later
              · cases same
              · exact List.mem_cons_of_mem name (ih later)

/-- The words between a direction and the names are `reg`, `signed` and the bounds of the range. -/
theorem lexeme_mem_modifiers {kind : TokenKind} {text : String}
    (member : .lexeme kind text ∈ group.modifiers) :
    text ∈ ["reg", "signed"] ∨ ∃ number : Nat, text = toString number := by
  obtain ⟨direction, isReg, isSigned, range, names⟩ := group
  rcases List.mem_append.mp member with reg | type
  · cases isReg with
    | false => cases reg
    | true =>
        simp only [↓reduceIte, List.mem_cons, Part.keyword, Part.lexeme.injEq, Part.space,
          reduceCtorEq, List.not_mem_nil, or_false] at reg
        obtain ⟨-, rfl⟩ := reg
        exact .inl (by decide)
  · rcases List.mem_append.mp type with signed | bounds
    · cases isSigned with
      | false => cases signed
      | true =>
          simp only [↓reduceIte, List.mem_cons, Part.lexeme.injEq, Part.space, reduceCtorEq,
            List.not_mem_nil, or_false] at signed
          obtain ⟨-, rfl⟩ := signed
          exact .inl (by decide)
    · rcases range with _ | ⟨high, low⟩
      · cases bounds
      · simp only [List.mem_cons, Part.lexeme.injEq, Part.space, reduceCtorEq, List.not_mem_nil,
          or_false, false_or] at bounds
        rcases bounds with ⟨-, same⟩ | ⟨-, same⟩
        · exact .inr ⟨high, same⟩
        · exact .inr ⟨low, same⟩

/-- A line that ends in no lexeme has those of the group. -/
theorem lexeme_mem_parts {ending : List Part} (plain : ∀ kind text, .lexeme kind text ∉ ending)
    {kind : TokenKind} {text : String} (member : .lexeme kind text ∈ group.parts ending) :
    text ∈ [group.direction.spelling, "reg", "signed"] ∨ (∃ number : Nat, text = toString number) ∨
      text ∈ group.names := by
  rcases List.mem_cons.mp member with same | later
  · cases same
    rw [Direction.spelling_keyword]
    exact .inl List.mem_cons_self
  · rcases List.mem_cons.mp later with same | later
    · cases same
    · rcases List.mem_append.mp later with modifier | later
      · rcases lexeme_mem_modifiers modifier with word | number
        · exact .inl (List.mem_cons_of_mem _ word)
        · exact .inr (.inl number)
      · rcases List.mem_append.mp later with name | last
        · exact .inr (.inr (lexeme_mem_nameParts name))
        · exact (plain kind text last).elim

variable {ending : List Part}

/-- A group of ports is spelled so that its words stand apart, as long as its ending has no
words. -/
theorem wordy_parts (wellFormed : group.IsWellFormed)
    (plain : ∀ kind text, .lexeme kind text ∉ ending) : Wordy (group.parts ending) := by
  have words : ∀ direction : Direction, ∀ text ∈ [direction.spelling, "reg", "signed"],
      text.toList.all isWordChar = true := by
    intro direction
    cases direction <;> decide
  intro kind text member
  rcases lexeme_mem_parts plain member with word | ⟨number, rfl⟩ | name
  · exact List.all_eq_true.mp (words _ text word)
  · exact isWordChar_toString number
  · exact isWordChar_of_isName (wellFormed.names text name).1

/-- Nothing on the line of a group is counted. -/
theorem not_mem_counted (wellFormed : group.IsWellFormed)
    (plain : ∀ kind text, .lexeme kind text ∉ ending) {kind : TokenKind} {text : String}
    (member : .lexeme kind text ∈ group.parts ending) : text ∉ counted := by
  have words : ∀ direction : Direction, ∀ text ∈ [direction.spelling, "reg", "signed"],
      text ∉ counted := by
    intro direction
    cases direction <;> decide
  rcases lexeme_mem_parts plain member with word | ⟨number, rfl⟩ | name
  · exact words _ text word
  · have letters : ∀ word ∈ counted, word.toList.any (· ∉ decimalDigits) = true := by decide
    intro count
    obtain ⟨c, inside, other⟩ := List.any_eq_true.mp (letters _ count)
    exact toString_ne_of_mem inside (of_decide_eq_true other) number rfl
  · exact not_mem_of_subset (wellFormed.names text name) (by decide)

/-- The marks between a direction and the names are spaces and the brackets and the colon of a
range. -/
theorem marks_modifiers (group : PortGroup) : marks group.modifiers =
    (if group.isReg then [' '] else []) ++ ((if group.isSigned then [' '] else []) ++
      if group.range.isSome then ['[', ':', ']', ' '] else []) := by
  obtain ⟨direction, isReg, isSigned, range, names⟩ := group
  cases isReg <;> cases isSigned <;> rcases range with _ | ⟨high, low⟩ <;> rfl

theorem marks_parts (group : PortGroup) (ending : List Part) : marks (group.parts ending) =
    ' ' :: (marks group.modifiers ++ (marks (nameParts group.names) ++ marks ending)) := by
  rw [← marks_append, ← marks_append]
  rfl

/-- The atoms between a direction and the names, which the linter reads as modifiers and a range. -/
theorem texts_modifiers (group : PortGroup) : texts group.modifiers =
    (if group.isReg then ["reg"] else []) ++ ((if group.isSigned then ["signed"] else []) ++
      match group.range with
      | none => []
      | some (high, low) => ["[", toString high, ":", toString low, "]"]) := by
  obtain ⟨direction, isReg, isSigned, range, names⟩ := group
  cases isReg <;> cases isSigned <;> rcases range with _ | ⟨high, low⟩ <;> rfl

/-- The atoms of a group of ports in the order in which the linter reads them. -/
theorem texts_parts (group : PortGroup) (ending : List Part) : texts (group.parts ending) =
    group.direction.spelling ::
      (texts group.modifiers ++ (commaSeparated group.names ++ texts ending)) := by
  rw [← texts_nameParts, ← texts_append, ← texts_append, ← Direction.spelling_keyword]
  rfl

end Parts

/-- A list of atoms does not go on with another port name. -/
def EndsNames (atoms : List String) : Prop :=
  atoms = [] ∨ atoms = [","]

/-- **The linter reads the names of a group back**, and leaves what follows them. -/
theorem takePortNames_commaSeparated {names : List String} (some : names ≠ [])
    (areNames : ∀ name ∈ names, Report.isPortName name = true) {rest : List String}
    (ends : EndsNames rest) :
    Report.takePortNames (commaSeparated names ++ rest) = (names, rest) := by
  induction names with
  | nil => exact (some rfl).elim
  | cons name names ih =>
      obtain ⟨first, others⟩ := List.forall_mem_cons.mp areNames
      cases names with
      | nil =>
          rcases ends with rfl | rfl
          · simp only [commaSeparated, List.append_nil, Report.takePortNames, first, ↓reduceIte]
          · change Report.takePortNames [name, ","] = _
            simp only [Report.takePortNames, first, ↓reduceIte]
      | cons next names =>
          have following := ih (List.cons_ne_nil next names) others
          have goesOn : ("," == "," && Report.isPortName next) = true := by
            rw [others next List.mem_cons_self]
            rfl
          obtain ⟨after, split⟩ : ∃ after,
              commaSeparated (next :: names) ++ rest = next :: after := by
            cases names <;> exact ⟨_, rfl⟩
          change Report.takePortNames (name :: "," :: (commaSeparated (next :: names) ++ rest)) = _
          rw [split] at following ⊢
          rw [Report.takePortNames, if_pos first]
          simp only [goesOn, ↓reduceIte, following]

/-- The linter finds the width of a range whose bounds are written in decimal and fit in 63 bits. -/
theorem widthOf_bounds (report : Report) {high low : Nat} (highFits : high < 2 ^ 63)
    (lowFits : low < 2 ^ 63) :
    report.widthOf [toString high, ":", toString low] = rangeBits (some (high, low)) := by
  have noColon : (toString high != ":") = true :=
    bne_iff_ne.mpr (toString_ne_of_mem (c := ':') List.mem_cons_self (by decide) high)
  have highWords : [toString high, ":", toString low].takeWhile (· != ":") = [toString high] := by
    rw [List.takeWhile_cons_of_pos (p := (· != ":")) noColon]
    rfl
  have lowWords :
      [toString high, ":", toString low].dropWhile (· != ":") = [":", toString low] := by
    rw [List.dropWhile_cons_of_pos (p := (· != ":")) noColon]
    rfl
  simp only [Report.widthOf, highWords, lowWords, Report.fold, Constant.fold_toString,
    Value.rangeWidth_ofNat highFits lowFits, rangeBits]

/-- A range is taken with its brackets. -/
theorem takeWidth_bounds (report : Report) {high low : Nat} (highFits : high < 2 ^ 63)
    (lowFits : low < 2 ^ 63) (rest : List String) :
    report.takeWidth ("[" :: toString high :: ":" :: toString low :: "]" :: rest) =
      (rangeBits (some (high, low)), rest) := by
  have inside : ∀ atom ∈ [toString high, ":", toString low], (atom != "]") = true := by
    have number (number : Nat) : (toString number != "]") = true :=
      bne_iff_ne.mpr (toString_ne_of_mem (c := ']') List.mem_cons_self (by decide) number)
    exact List.forall_mem_cons.mpr ⟨number high, List.forall_mem_cons.mpr
      ⟨by decide, List.forall_mem_singleton.mpr (number low)⟩⟩
  have taken : (toString high :: ":" :: toString low :: "]" :: rest).takeWhile (· != "]") =
      [toString high, ":", toString low] :=
    List.takeWhile_append_of_pos inside
  have dropped : (toString high :: ":" :: toString low :: "]" :: rest).dropWhile (· != "]") =
      "]" :: rest :=
    List.dropWhile_append_of_pos inside
  simp only [Report.takeWidth, taken, dropped, widthOf_bounds report highFits lowFits]

/-- Without a bracket there is no range, and the width is 1. -/
theorem takeWidth_of_ne (report : Report) {name : String} (noBracket : name ≠ "[")
    (rest : List String) : report.takeWidth (name :: rest) = (1, name :: rest) := by
  unfold Report.takeWidth
  split
  · rename_i same
    exact (noBracket (List.cons.inj same).1).elim
  · rfl

variable {group : PortGroup}

/-- The modifiers are taken, then the range. -/
theorem takeWidth_modifiers (wellFormed : group.IsWellFormed) (report : Report) {name : String}
    (isName : IsHeaderName name) (rest : List String) :
    (texts group.modifiers ++ name :: rest).takeWhile Report.isPortModifier =
        (if group.isReg then ["reg"] else []) ++ (if group.isSigned then ["signed"] else []) ∧
      report.takeWidth
          ((texts group.modifiers ++ name :: rest).dropWhile Report.isPortModifier) =
        (group.width, name :: rest) := by
  have noModifier : Report.isPortModifier name = false := by
    have other : name ∉ ["reg", "wire", "logic", "signed"] :=
      not_mem_of_subset isName (by decide)
    simp only [List.mem_cons, List.not_mem_nil, or_false, not_or] at other
    simp only [Report.isPortModifier, Bool.or_eq_false_iff, beq_eq_false_iff_ne]
    exact ⟨⟨⟨other.1, other.2.1⟩, other.2.2.1⟩, other.2.2.2⟩
  have noBracket : name ≠ "[" := by
    rintro rfl
    exact absurd isName.1.start (by decide)
  have stops : (name :: rest).takeWhile Report.isPortModifier = [] ∧
      (name :: rest).dropWhile Report.isPortModifier = name :: rest :=
    ⟨List.takeWhile_cons_of_neg (ne_true_of_eq_false noModifier),
      List.dropWhile_cons_of_neg (ne_true_of_eq_false noModifier)⟩
  have single : report.takeWidth ((name :: rest).dropWhile Report.isPortModifier) =
      (rangeBits none, name :: rest) := by
    rw [stops.2]
    exact takeWidth_of_ne report noBracket rest
  have bounds := wellFormed.bounds
  rw [texts_modifiers, PortGroup.width]
  obtain ⟨direction, isReg, isSigned, range, names⟩ := group
  rcases range with _ | ⟨high, low⟩
  · cases isReg <;> cases isSigned
    · exact ⟨stops.1, single⟩
    · exact ⟨congrArg ("signed" :: ·) stops.1, single⟩
    · exact ⟨congrArg ("reg" :: ·) stops.1, single⟩
    · exact ⟨congrArg ("reg" :: "signed" :: ·) stops.1, single⟩
  · obtain ⟨highFits, lowFits⟩ := bounds high low rfl
    have width := takeWidth_bounds report highFits lowFits (name :: rest)
    cases isReg <;> cases isSigned <;> exact ⟨rfl, width⟩

/-- The linter declares the ports of a group, and their names as signals when the group is a
register. -/
theorem addPorts_group (group : PortGroup) (report : Report) (line : Nat) :
    report.addPorts line group.direction
        ((if group.isReg then ["reg"] else []) ++ (if group.isSigned then ["signed"] else []))
        group.width group.names =
      { report with
        ports := report.ports ++ group.ports line
        signals := report.signals ++ group.regs line } := by
  rw [Report.addPorts, PortGroup.ports, PortGroup.regs]
  cases group.isReg <;> cases group.isSigned <;> rfl

/-- **The ports of a group are collected.** -/
theorem collectPorts_group (wellFormed : group.IsWellFormed) (report : Report) (line : Nat)
    {rest : List String} (ends : EndsNames rest) :
    report.collectPorts line group.direction
        (texts group.modifiers ++ (commaSeparated group.names ++ rest)) =
      ({ report with
          ports := report.ports ++ group.ports line
          signals := report.signals ++ group.regs line }, rest) := by
  have taken := takePortNames_commaSeparated wellFormed.some
    (fun name member => isPortName_of_isHeaderName (wellFormed.names name member)) ends
  obtain ⟨name, member, after, split⟩ : ∃ name ∈ group.names, ∃ after,
      commaSeparated group.names ++ rest = name :: after := by
    match group.names, wellFormed.some with
    | [name], _ => exact ⟨name, List.mem_cons_self, _, rfl⟩
    | name :: next :: names, _ => exact ⟨name, List.mem_cons_self, _, rfl⟩
  rw [split] at taken ⊢
  obtain ⟨modifiers, width⟩ :=
    takeWidth_modifiers wellFormed report (wellFormed.names name member) after
  rw [Report.collectPorts]
  simp only [modifiers, width, taken, addPorts_group]

/-- What is known inside a header. -/
def inHeader (report : Report) (brackets : Balance) : Survey where
  report := report
  depth := 1
  opened := 1
  brackets := brackets
  parentheses := ⟨1, 1⟩

/-- Commas and spaces are no delimiters that the linter counts. -/
theorem countDelimiter_quiet {cs : List Char} (quiet : ∀ c ∈ cs, c = ',' ∨ c = ' ') (line : Nat)
    (survey : Survey) : cs.foldl (Survey.countDelimiter line) survey = survey := by
  induction cs with
  | nil => rfl
  | cons c cs ih =>
      obtain ⟨first, others⟩ := List.forall_mem_cons.mp quiet
      rw [List.foldl_cons]
      rcases first with rfl | rfl <;> exact ih others

/-- The brackets of a range are balanced. -/
theorem countDelimiter_group (group : PortGroup) {ending : List Part}
    (quiet : ∀ c ∈ marks ending, c = ',' ∨ c = ' ') (line : Nat) (report : Report)
    {brackets : Balance} (closed : brackets.depth = 0) :
    ∃ after : Balance, after.depth = 0 ∧
      (marks (group.parts ending)).foldl (Survey.countDelimiter line) (inHeader report brackets) =
        inHeader report after := by
  rw [marks_parts, List.foldl_cons, List.foldl_append, List.foldl_append, marks_modifiers]
  have names := marks_nameParts group.names
  generalize group.isReg = isReg, group.isSigned = isSigned, group.range.isSome = ranged
  have spaces (survey : Survey) :
      ((if isReg then [' '] else []) ++ if isSigned then [' '] else []).foldl
        (Survey.countDelimiter line) survey = survey := by
    refine countDelimiter_quiet ?_ line survey
    cases isReg <;> cases isSigned <;> exact List.all_iff_forall_prop.mp (by decide)
  change ∃ after : Balance, after.depth = 0 ∧ (marks ending).foldl (Survey.countDelimiter line)
    ((marks (nameParts group.names)).foldl (Survey.countDelimiter line)
      (List.foldl (Survey.countDelimiter line) (inHeader report brackets) _)) = _
  simp only [countDelimiter_quiet quiet, countDelimiter_quiet names]
  rw [← List.append_assoc, List.foldl_append, spaces]
  cases ranged with
  | false => exact ⟨brackets, closed, rfl⟩
  | true =>
      refine ⟨(brackets.opened line).closed line, ?_, rfl⟩
      rw [Balance.closed, Balance.opened, closed]
      rfl

/-- **The linter collects the ports of a group** with their direction, width and line. -/
theorem collect_group (wellFormed : group.IsWellFormed) (report : Report) (line : Nat)
    {ending : List Part} (ends : EndsNames (texts ending)) :
    report.collect line (texts (group.parts ending)) =
      { report with
        ports := report.ports ++ group.ports line
        signals := report.signals ++ group.regs line } := by
  have direction : Direction.ofSpelling? group.direction.spelling = some group.direction := by
    cases group.direction <;> decide
  have quiet : ∀ atom ∈ texts ending, atom ∉ collected := by
    rcases ends with none | comma
    · rw [none]
      exact List.forall_mem_nil _
    · rw [comma]
      decide
  rw [texts_parts, Report.collect, direction]
  simp only [collectPorts_group wellFormed report line ends]
  exact collect_of_not_mem quiet _ line

/-- The placed words of parts are the texts of the lexemes among them. -/
theorem mem_wordsAt {parts : List Part} {offset : Nat} {place : PlacedWord}
    (member : place ∈ wordsAt offset parts) : ∃ kind, .lexeme kind place.word ∈ parts := by
  induction parts generalizing offset with
  | nil => cases member
  | cons part parts ih =>
      cases part with
      | lexeme kind text =>
          rcases List.mem_cons.mp member with rfl | later
          · exact ⟨kind, List.mem_cons_self⟩
          · obtain ⟨other, inside⟩ := ih later
            exact ⟨other, List.mem_cons_of_mem _ inside⟩
      | mark c =>
          obtain ⟨kind, inside⟩ := ih member
          exact ⟨kind, List.mem_cons_of_mem _ inside⟩

/-- The words that a segment of its own kind starts with. -/
def leading : List String :=
  ["assign", "always", "wire", "reg"]

/-- A segment that starts with an ordinary word is only searched for declarations. -/
theorem checkSegment_of_not_mem {segment : Segment} {first : String} {rest : List String}
    (known : atoms segment.text = first :: rest) (other : first ∉ leading) (line : Nat)
    (survey : Survey) : survey.checkSegment line segment =
      { survey with report := survey.report.collect line (first :: rest) } := by
  unfold Survey.checkSegment
  simp only [known]
  split
  all_goals first
    | rfl
    | (rename_i same; exact (other ((List.cons.inj same).1 ▸ by decide)).elim)

/-- A line with a word is not blank. -/
theorem exists_not_isBlank {kind : TokenKind} {text : String} (solid : Token.IsSolid kind text)
    (parts : List Part) : ∃ c ∈ spelled (.lexeme kind text :: parts), Text.isBlank c = false := by
  obtain ⟨c, cs, split⟩ := List.exists_cons_of_ne_nil solid.lexeme.ne_nil
  have member : c ∈ text.toList := split ▸ List.mem_cons_self
  obtain ⟨noComment, noString⟩ := not_or.mp solid.noQuote
  exact ⟨c, List.mem_append_left _ member,
    solid.lexeme.not_isBlank noComment noString c member⟩

/-- What may stand at the end of the line of a group: nothing, or a comma. -/
def IsEnding (ending : List Part) : Prop :=
  ending = [] ∨ ending = [.mark ',']

/-- The ending of a group has no words. -/
theorem IsEnding.lexeme_not_mem {ending : List Part} (isEnding : IsEnding ending)
    (kind : TokenKind) (text : String) : .lexeme kind text ∉ ending := by
  rcases isEnding with rfl | rfl
  · exact List.not_mem_nil
  · exact fun member => nomatch List.mem_singleton.mp member

/-- The first group of a header is its own parts with an ending, which is a comma if other groups
follow. -/
theorem exists_ending (group : PortGroup) (groups : List PortGroup) :
    ∃ ending, IsEnding ending ∧ Header.groupParts (group :: groups) =
      group.parts ending :: Header.groupParts groups := by
  cases groups with
  | nil => exact ⟨[], .inl rfl, rfl⟩
  | cons next groups => exact ⟨[.mark ','], .inr rfl, rfl⟩

/-- **The line of a group declares its ports** and leaves everything else as it is. -/
theorem checkLine_group (wellFormed : group.IsWellFormed) (line : Nat) {ending : List Part}
    (isEnding : IsEnding ending) (report : Report) {brackets : Balance}
    (closed : brackets.depth = 0) :
    ∃ after : Balance, after.depth = 0 ∧
      (inHeader report brackets).checkLine line (spelled (group.parts ending)) =
        inHeader { report with
          ports := report.ports ++ group.ports line
          signals := report.signals ++ group.regs line } after := by
  have written : Written (group.parts ending) := by
    rcases isEnding with rfl | rfl
    · exact wellFormed.written .nil trivial
    · exact wellFormed.written (by decide) (by decide)
  have plain := isEnding.lexeme_not_mem
  have quiet : ∀ c ∈ marks ending, c = ',' ∨ c = ' ' := by
    rcases isEnding with rfl | rfl <;> exact List.all_iff_forall_prop.mp (by decide)
  have ends : EndsNames (texts ending) := by
    rcases isEnding with rfl | rfl
    · exact .inl rfl
    · exact .inr rfl
  have wordy := wordy_parts wellFormed plain
  have words : ∀ place ∈ wordsAt 0 (group.parts ending), place.word ∉ counted := by
    intro place member
    obtain ⟨kind, inside⟩ := mem_wordsAt member
    exact not_mem_counted wellFormed plain inside
  have oneSegment : segments (spelled (group.parts ending)) =
      [⟨spelled (group.parts ending), false⟩] := by
    apply segments_of_not_mem
    · intro semicolon
      rcases mem_spelled wordy _ semicolon with word | mark
      · exact absurd word (by decide)
      · have modifiers : ';' ∉ marks group.modifiers := by
          rw [marks_modifiers]
          generalize group.isReg = isReg, group.isSigned = isSigned, group.range.isSome = ranged
          decide +revert
        rw [marks_parts, List.mem_cons, List.mem_append, List.mem_append] at mark
        rcases mark with same | inModifiers | inNames | inEnding
        · cases same
        · exact modifiers inModifiers
        · exact absurd (marks_nameParts _ _ inNames) (by decide)
        · exact absurd (quiet _ inEnding) (by decide)
    · exact exists_not_isBlank written.1 _
  have noLeading : group.direction.spelling ∉ leading := by
    cases group.direction <;> decide
  have atoms := (atoms_spelled written wordy).trans (texts_parts group ending)
  obtain ⟨after, still, counted⟩ := countDelimiter_group group quiet line report closed
  refine ⟨after, still, ?_⟩
  rw [Survey.checkLine, foldl_countDelimiter_spelled wordy, counted,
    placedWords_spelled written wordy, foldl_countWord words, oneSegment, List.foldl_cons,
    List.foldl_nil, checkSegment_of_not_mem atoms noLeading, ← texts_parts]
  exact congrArg (inHeader · after) (collect_group wellFormed report line ends)

/-- **The lines of the groups declare their ports** one after another. -/
theorem checkLines_groups {groups : List PortGroup}
    (wellFormed : ∀ group ∈ groups, group.IsWellFormed) (line : Nat) (report : Report)
    {brackets : Balance} (closed : brackets.depth = 0) (rest : List (List Char)) :
    ∃ after : Balance, after.depth = 0 ∧
      (inHeader report brackets).checkLines line
          ((Header.groupParts groups).map spelled ++ rest) =
        (inHeader { report with
          ports := report.ports ++ (groups.zipIdx line).flatMap fun (group, line) =>
            group.ports line
          signals := report.signals ++ (groups.zipIdx line).flatMap fun (group, line) =>
            group.regs line } after).checkLines (line + groups.length) rest := by
  induction groups generalizing line report brackets with
  | nil =>
      refine ⟨brackets, closed, ?_⟩
      rw [List.zipIdx_nil, List.flatMap_nil, List.flatMap_nil, List.append_nil, List.append_nil]
      rfl
  | cons group groups ih =>
      obtain ⟨first, others⟩ := List.forall_mem_cons.mp wellFormed
      obtain ⟨ending, isEnding, lines⟩ := exists_ending group groups
      obtain ⟨between, stillClosed, here⟩ := checkLine_group first line isEnding report closed
      obtain ⟨after, closedAgain, there⟩ := ih others (line + 1)
        { report with
          ports := report.ports ++ group.ports line
          signals := report.signals ++ group.regs line } stillClosed
      refine ⟨after, closedAgain, ?_⟩
      rw [lines, List.map_cons, List.cons_append, Survey.checkLines, here, there, List.zipIdx_cons,
        List.flatMap_cons, List.flatMap_cons, List.length_cons, Nat.add_assoc, Nat.add_comm 1,
        List.append_assoc, List.append_assoc]

theorem wordy_openingParts {name : String} (isName : Token.IsName name) :
    Wordy (openingParts name) :=
  (((Wordy.nil.mark '(').lexeme _ (isWordChar_of_isName isName)).mark ' ').lexeme _
    (isWordChar_spelling .module_)

theorem wordy_closingParts : Wordy closingParts :=
  (Wordy.nil.mark ';').mark ')'

theorem wordy_lastParts : Wordy lastParts :=
  Wordy.nil.lexeme _ (isWordChar_spelling .endmodule)

/-- The closing parenthesis of the header. -/
theorem checkLine_closingParts (survey : Survey) (line : Nat) :
    survey.checkLine line (spelled closingParts) =
      { survey with parentheses := survey.parentheses.closed line } := by
  have words : placedWords 0 (spelled closingParts) = [] :=
    placedWords_spelled written_closingParts wordy_closingParts 0
  have alone : Written [.mark ')'] := by decide
  have oneAtom : atoms [')'] = [")"] := atoms_spelled alone (Wordy.nil.mark ')')
  have oneSegment : segments (spelled closingParts) = [⟨[')'], true⟩] := by decide
  rw [Survey.checkLine, words, oneSegment, List.foldl_cons, List.foldl_nil, List.foldl_nil,
    checkSegment_of_not_mem oneAtom (by decide), collect_of_not_mem (by decide)]
  rfl

/-- The last line of a header module closes the module and does nothing else. -/
theorem checkLine_lastParts (survey : Survey) (line : Nat) :
    survey.checkLine line (spelled lastParts) = survey.closeModule line ⟨0, "endmodule"⟩ := by
  have words : placedWords 0 (spelled lastParts) = [⟨0, "endmodule"⟩] :=
    placedWords_spelled written_lastParts wordy_lastParts 0
  have oneAtom : atoms (spelled lastParts) = ["endmodule"] :=
    atoms_spelled written_lastParts wordy_lastParts
  have oneSegment : segments (spelled lastParts) = [⟨spelled lastParts, false⟩] := by decide
  rw [Survey.checkLine, foldl_countDelimiter_spelled wordy_lastParts, words, oneSegment,
    List.foldl_cons, List.foldl_cons, List.foldl_nil, List.foldl_nil,
    checkSegment_of_not_mem oneAtom (by decide), collect_of_not_mem (by decide)]
  rfl

/-- The word after `module` is the name of the module. -/
theorem nextWord_name {name : String} (isName : Token.IsName name) :
    Survey.nextWord (' ' :: (name.toList ++ ['('])) = name.toList := by
  obtain ⟨noComment, noString⟩ := not_or.mp isName.isSolid.noQuote
  have notBlank : ∀ c ∈ (name.toList ++ ['(']).head?, Text.isBlank c = false := by
    intro c head
    have member := List.mem_of_head? head
    rcases List.mem_append.mp member with inName | last
    · exact isName.isSolid.lexeme.not_isBlank noComment noString c inName
    · cases List.mem_singleton.mp last
      decide
  have trimmed : Text.trimStart (' ' :: (name.toList ++ ['('])) = name.toList ++ ['('] := by
    rw [Text.trimStart, List.dropWhile_cons_of_pos (by decide), Text.dropWhile_eq_self notBlank]
  rw [Survey.nextWord, trimmed]
  exact (span_append isWordChar_delimiter (isWordChar_of_isName isName)
    (.cons (by decide) [])).1

/-- The first line opens the module. -/
theorem checkLine_openingParts {name : String} (isName : IsHeaderName name) :
    Survey.checkLine {} 1 (spelled (openingParts name)) = inHeader { name := name } {} := by
  have written := written_openingParts isName.1
  have wordy := wordy_openingParts isName.1
  have oneSegment : segments (spelled (openingParts name)) =
      [⟨spelled (openingParts name), false⟩] := by
    refine segments_of_not_mem (fun semicolon => ?_) (exists_not_isBlank written.1 _)
    rcases mem_spelled wordy _ semicolon with word | mark
    · exact absurd word (by decide)
    · exact absurd (show ';' ∈ [' ', '('] from mark) (by decide)
  have quiet : ∀ atom ∈ ["module", name, "("], atom ∉ collected :=
    List.forall_mem_cons.mpr ⟨by decide, List.forall_mem_cons.mpr
      ⟨not_mem_of_subset isName (by decide), by decide⟩⟩
  have last : name ∉ counted := not_mem_of_subset isName (by decide)
  have opens : Survey.openModule { parentheses := ⟨1, 1⟩ } 1 (spelled (openingParts name))
      ⟨0, "module"⟩ = inHeader { name := name } {} := by
    have next : Survey.nextWord ((spelled (openingParts name)).drop (0 + "module".length)) =
        name.toList := nextWord_name isName.1
    have parenthesis : (spelled (openingParts name)).contains '(' = true := by
      refine List.contains_iff_mem.mpr (List.mem_append_right _ (List.mem_append_right _ ?_))
      exact List.mem_append_right _ List.mem_cons_self
    simp only [Survey.openModule, next, Survey.nameModule, String.ofList_toList,
      isName_of_isName isName.1, parenthesis, ↓reduceIte]
    rfl
  have words : (wordsAt 0 (openingParts name)).foldl
      (Survey.countWord 1 (spelled (openingParts name))) { parentheses := ⟨1, 1⟩ } =
        inHeader { name := name } {} := by
    change Survey.countWord 1 _ (Survey.openModule _ 1 _ ⟨0, "module"⟩) ⟨7, name⟩ = _
    rw [opens, countWord_of_not_mem last]
  have known : atoms (spelled (openingParts name)) = ["module", name, "("] :=
    atoms_spelled written wordy
  have segment (survey : Survey) :
      survey.checkSegment 1 ⟨spelled (openingParts name), false⟩ = survey := by
    rw [checkSegment_of_not_mem known (by decide), collect_of_not_mem quiet]
  rw [Survey.checkLine, foldl_countDelimiter_spelled wordy, placedWords_spelled written wordy,
    oneSegment, List.foldl_cons, List.foldl_nil, segment]
  exact words

/-- Lines that are spelled from parts have no comment and no string, so cleaning leaves them as they
are. -/
theorem cleanLines_spelled {lines : List (List Part)}
    (readable : ∀ parts ∈ lines, Written parts ∧ Wordy parts) :
    cleanLines false (lines.map spelled) = lines.map spelled := by
  induction lines with
  | nil => rfl
  | cons parts lines ih =>
      obtain ⟨⟨written, wordy⟩, others⟩ := List.forall_mem_cons.mp readable
      rw [List.map_cons, cleanLines, clean_spelled written wordy, ih others]

end Lint

namespace Header

open Lint

variable {header : Header}

/-- The lines of well-formed groups are spelled so that their words stand apart. -/
theorem wordy_groupParts {groups : List PortGroup}
    (wellFormed : ∀ group ∈ groups, group.IsWellFormed) :
    ∀ parts ∈ groupParts groups, Wordy parts := by
  induction groups with
  | nil => exact List.forall_mem_nil _
  | cons group groups ih =>
      obtain ⟨first, others⟩ := List.forall_mem_cons.mp wellFormed
      obtain ⟨ending, isEnding, lines⟩ := exists_ending group groups
      rw [lines]
      exact List.forall_mem_cons.mpr ⟨wordy_parts first isEnding.lexeme_not_mem, ih others⟩

/-- All lines of a well-formed header are spelled so that their words stand apart. -/
theorem IsWellFormed.wordy (wellFormed : header.IsWellFormed) :
    ∀ parts ∈ header.parts, Wordy parts := by
  refine List.forall_mem_append.mpr ⟨List.forall_mem_cons.mpr
    ⟨wordy_openingParts wellFormed.name.1, wordy_groupParts wellFormed.groups⟩, ?_⟩
  exact List.forall_mem_cons.mpr
    ⟨wordy_closingParts, List.forall_mem_singleton.mpr wordy_lastParts⟩

/-- **In a header the linter finds its ports and nothing wrong.** -/
theorem report_text (wellFormed : header.IsWellFormed) :
    Report.ofSource header.text =
      { name := header.name, ports := header.ports, signals := header.regs } := by
  have lines := Token.lines_join
    (Token.isLine_of_spelled header.toList_lines wellFormed.written)
  have readable : ∀ parts ∈ header.parts, Written parts ∧ Wordy parts := fun parts member =>
    ⟨wellFormed.written parts member, wellFormed.wordy parts member⟩
  have closed : ({} : Balance).depth = 0 := rfl
  obtain ⟨brackets, balanced, read⟩ := checkLines_groups wellFormed.groups 2 { name := header.name }
    closed ([closingParts, lastParts].map spelled)
  rw [Report.ofSource, text, lines, header.toList_lines, cleanLines_spelled readable, parts,
    List.map_append, List.map_cons, List.cons_append, Survey.checkLines,
    checkLine_openingParts wellFormed.name]
  change (((inHeader { name := header.name } {}).checkLines 2 _).finish _) = _
  rw [read, List.map_cons, List.map_singleton, Survey.checkLines, Survey.checkLines,
    Survey.checkLines, checkLine_closingParts, checkLine_lastParts]
  change Survey.finish
    { report := _, brackets := brackets, opened := 1, parentheses := ⟨0, 1⟩ } _ = _
  simp only [Survey.finish, Survey.findUnless, balanced]
  rfl

end Header

end MiniVerilog
