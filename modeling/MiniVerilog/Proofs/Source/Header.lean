import MiniVerilog.Proofs.Source.ItemPlace
import MiniVerilog.Proofs.Source.Type

/-! # Module headers as they are written

A header declares groups of ports, one group on a line. Its tokens are read as one item for each
group, with the line of the group (`MiniVerilog.Header.readItems_groups`).
-/

namespace MiniVerilog

open Token (Part spelled tokensAt tokensOfLines Written Delimited)

namespace Direction

/-- The reserved word that opens a declaration of ports of this direction. -/
def keyword : Direction → Keyword
  | input => .input
  | output => .output
  | inout => .inout

@[simp] theorem spelling_keyword (direction : Direction) :
    direction.keyword.spelling = direction.spelling := by
  cases direction <;> rfl

end Direction

/-- Ports that are declared together, with the two bounds of their range. -/
structure PortGroup where
  direction : Direction
  isReg : Bool
  isSigned : Bool
  range : Option (Nat × Nat)
  names : List String

/-- The words that are no name in a header, besides the reserved words: the front ends take them
for a part of a declaration or for the start of something else. -/
def reservedNames : List String :=
  ["signed", "logic", "macromodule", "casex", "casez"]

/-- A name in a header. -/
def IsHeaderName (name : String) : Prop :=
  Token.IsName name ∧ name ∉ reservedNames

instance (name : String) : Decidable (IsHeaderName name) :=
  inferInstanceAs (Decidable (_ ∧ _))

namespace PortGroup

/-- The range in front of the names, if there is one. -/
def rangeText (group : PortGroup) : String :=
  match group.range with
  | none => ""
  | some (high, low) => "[" ++ toString high ++ ":" ++ toString low ++ "] "

/-- The line of a group without the comma at its end. -/
def text (group : PortGroup) : String :=
  group.direction.spelling ++ " " ++ (if group.isReg then "reg " else "") ++
    (if group.isSigned then "signed " else "") ++ group.rangeText ++ ", ".intercalate group.names

/-- The number of bits that the range says. -/
def width (group : PortGroup) : Nat :=
  rangeBits group.range

/-- The ports, when the group stands on a line. -/
def ports (group : PortGroup) (line : Nat) : List Port :=
  group.names.map fun name => ⟨name, group.direction, group.width, group.isSigned, line⟩

/-- The variables that the ports are, when the group stands on a line. -/
def regs (group : PortGroup) (line : Nat) : List Signal :=
  if group.isReg then
    group.names.map fun name => ⟨name, .reg, group.width, group.isSigned, none, line⟩
  else []

theorem names_ports (group : PortGroup) (line : Nat) :
    (group.ports line).map Port.name = group.names := by
  rw [ports, List.map_map]
  exact List.map_id _

/-- Only names of the group are variables, all of them or none. -/
theorem names_regs (group : PortGroup) (line : Nat) :
    (group.regs line).map Signal.name ⊆ group.names := by
  rw [regs]
  split
  · have same : group.names.map (Signal.name ∘ fun name =>
        ⟨name, .reg, group.width, group.isSigned, none, line⟩) = group.names := List.map_id _
    rw [List.map_map, same]
    exact List.Subset.refl _
  · exact List.nil_subset _

/-- There is a name, all names can be names of ports, and the bounds fit in a value. -/
structure IsWellFormed (group : PortGroup) : Prop where
  some : group.names ≠ []
  names : ∀ name ∈ group.names, IsHeaderName name
  bounds : ∀ high low, group.range = .some (high, low) → high < 2 ^ 63 ∧ low < 2 ^ 63

end PortGroup

/-- The header of a module. -/
structure Header where
  name : String
  groups : List PortGroup

namespace Header

/-- The lines of the groups, with a comma at the end of all but the last. -/
def groupLines : List PortGroup → List String
  | [] => []
  | [group] => [group.text]
  | group :: next :: groups => (group.text ++ ",") :: groupLines (next :: groups)

/-- The lines of a module that has only the header. -/
def lines (header : Header) : List String :=
  ("module " ++ header.name ++ "(") :: groupLines header.groups ++ [");", "endmodule"]

/-- The text of a module that has only the header. -/
def text (header : Header) : String :=
  String.join (header.lines.map (· ++ "\n"))

/-- The ports in order; the first group stands on line 2. -/
def ports (header : Header) : List Port :=
  (header.groups.zipIdx 2).flatMap fun (group, line) => group.ports line

/-- The ports that are variables, in order. -/
def regs (header : Header) : List Signal :=
  (header.groups.zipIdx 2).flatMap fun (group, line) => group.regs line

/-- The name and the groups are well-formed, and no two ports have the same name. -/
structure IsWellFormed (header : Header) : Prop where
  name : IsHeaderName header.name
  groups : ∀ group ∈ header.groups, group.IsWellFormed
  distinct : (header.groups.flatMap PortGroup.names).Nodup

end Header

/-- Names with a comma and a space between them. -/
def nameParts : List String → List Part
  | [] => []
  | [name] => [.lexeme .identifier name]
  | name :: next :: names =>
    .lexeme .identifier name :: .mark ',' :: .space :: nameParts (next :: names)

/-- Names with commas between them are spelled from the parts of a list of names. -/
theorem toList_intercalate (names : List String) :
    (", ".intercalate names).toList = spelled (nameParts names) := by
  induction names with
  | nil => rfl
  | cons name names ih =>
      cases names with
      | nil =>
          rw [String.intercalate_singleton]
          exact (List.append_nil _).symm
      | cons next names =>
          rw [String.intercalate_cons_cons, String.toList_append, String.toList_append, ih,
            List.append_assoc]
          rfl

/-- A list of names is told apart into its parts, whatever delimiter follows. The induction is on
the names after the first one. -/
theorem written_nameParts {names : List String} (some : names ≠ [])
    (areNames : ∀ name ∈ names, Token.IsName name) {after : List Part}
    (delimited : Delimited (spelled after)) (written : Written after) :
    Written (nameParts names ++ after) := by
  induction names with
  | nil => exact (some rfl).elim
  | cons name names ih =>
      obtain ⟨first, others⟩ := List.forall_mem_cons.mp areNames
      cases names with
      | nil => exact ⟨first.isSolid, delimited, written⟩
      | cons next names =>
          exact first.isSolid.before_mark (by decide)
            (ih (List.cons_ne_nil next names) others).space

namespace PortGroup

/-- What stands between the direction and the names. -/
def modifiers (group : PortGroup) : List Part :=
  (if group.isReg then [.keyword .reg, .space] else []) ++ typeParts group.isSigned group.range

/-- The line of a group with this ending. -/
def parts (group : PortGroup) (ending : List Part) : List Part :=
  .keyword group.direction.keyword :: .space ::
    (group.modifiers ++ (nameParts group.names ++ ending))

/-- The line of a group is spelled from its parts. -/
theorem toList_text (group : PortGroup) (ending : List Part) :
    group.text.toList ++ spelled ending = spelled (group.parts ending) := by
  obtain ⟨direction, isReg, isSigned, range, names⟩ := group
  have start (after : List Part) : spelled (.keyword direction.keyword :: .space :: after) =
      direction.spelling.toList ++ ' ' :: spelled after := by
    rw [← direction.spelling_keyword]
    rfl
  simp only [text, parts, start, Token.spelled_append, String.toList_append, toList_intercalate,
    List.append_assoc, modifiers, typeParts, rangeText]
  cases isReg <;> cases isSigned <;> rcases range with _ | ⟨high, low⟩ <;>
    simp [spelled, Part.characters, Part.keyword, Part.space, Keyword.spelling]

/-- What stands between the direction and the names is told apart into its parts. -/
theorem written_modifiers (group : PortGroup) : Written group.modifiers := by
  have regPart : Written (if group.isReg then [.keyword .reg, .space] else []) := by
    split
    · exact (Token.isSolid_keyword .reg).before_space trivial
    · trivial
  have regCloses : Token.Closed (if group.isReg then [.keyword .reg, .space] else []) := by
    intro kind text last
    split at last <;> cases last
  exact regPart.append regCloses (written_typeParts group.isSigned group.range)

/-- What stands between the direction and the names ends in a space, so that a name can follow. -/
theorem closed_modifiers (group : PortGroup) : Token.Closed group.modifiers := by
  obtain ⟨direction, isReg, isSigned, range, names⟩ := group
  intro kind text last
  cases isReg <;> cases isSigned <;> rcases range with _ | ⟨high, low⟩ <;> cases last

variable {group : PortGroup}

/-- The line of a well-formed group is told apart into its parts. -/
theorem IsWellFormed.written (wellFormed : group.IsWellFormed) {ending : List Part}
    (delimited : Delimited (spelled ending)) (written : Written ending) :
    Written (group.parts ending) := by
  have names := written_nameParts wellFormed.some
    (fun name member => (wellFormed.names name member).1) delimited written
  exact (Token.isSolid_keyword _).before_space
    (group.written_modifiers.append group.closed_modifiers names)

end PortGroup

namespace Source

/-- A comma without a name after it does not go on with a list. -/
theorem commaContinues_eq_false {first : Token} {rest : List Token}
    (noName : headIs Token.isIdentifier rest = false) : commaContinues (first :: rest) = false := by
  cases rest with
  | nil => rfl
  | cons next rest =>
      rw [commaContinues, show next.isIdentifier = false from noName, Bool.and_false]

/-- **Names are read** up to what goes on with no further name. -/
theorem takePortNames_nameParts {names : List String} (some : names ≠ []) (line column : Nat)
    {rest : List Token} (ends : commaContinues rest = false) :
    takePortNames (tokensAt line column (nameParts names) ++ rest) =
      (names.map fun name => ⟨name, line, none⟩, rest) := by
  induction names generalizing column with
  | nil => exact (some rfl).elim
  | cons name names ih =>
      cases names with
      | nil =>
          change takePortNames (⟨.identifier, name, line, column⟩ :: rest) = _
          rw [takePortNames_cons, ends]
          rfl
      | cons next names =>
          have following := ih (List.cons_ne_nil next names)
            (column + name.toList.length + 1 + 1)
          have comma : tokensAt line column (nameParts (name :: next :: names)) ++ rest =
              ⟨.identifier, name, line, column⟩ ::
                ⟨.operator, ",", line, column + name.toList.length⟩ ::
                  (tokensAt line (column + name.toList.length + 1 + 1)
                    (nameParts (next :: names)) ++ rest) := rfl
          have head : headIs Token.isIdentifier
              (tokensAt line (column + name.toList.length + 1 + 1) (nameParts (next :: names)) ++
                rest) = true := by
            cases names <;> rfl
          have goesOn : commaContinues (⟨.operator, ",", line, column + name.toList.length⟩ ::
              (tokensAt line (column + name.toList.length + 1 + 1) (nameParts (next :: names)) ++
                rest)) = true := by
            cases names <;> rfl
          rw [comma, takePortNames_cons, goesOn]
          simp only [Token.isIdentifier, beq_self_eq_true, ↓reduceIte, List.drop_succ_cons,
            List.drop_zero, following]
          rfl

end Source

namespace PortGroup

variable {group : PortGroup}

/-- The declaration, when the group stands on a line. -/
def item (group : PortGroup) (line : Nat) : Source.Item :=
  .ports group.direction group.isReg group.isSigned (rangeWords group.range)
    (group.names.map fun name => ⟨name, line, none⟩)

/-- **The reader of ports reads the modifiers of a group** and goes on with its names. -/
theorem takePorts_modifiers (line column : Nat) {name : Token} {rest : List Token}
    (identifier : name.isIdentifier = true) (noMark : name.text ≠ "signed") :
    Source.takePorts group.direction (tokensAt line column group.modifiers ++ name :: rest) =
      (.ports group.direction group.isReg group.isSigned (rangeWords group.range)
        (Source.takePortNames (name :: rest)).1, (Source.takePortNames (name :: rest)).2) := by
  have reg : Source.headIs (Token.isKeyword .reg)
        (tokensAt line column group.modifiers ++ name :: rest) = group.isReg ∧
      ∃ typeColumn, Source.skipIf (fun token => token.isKeyword .reg || token.isKeyword .wire)
          (tokensAt line column group.modifiers ++ name :: rest) =
        tokensAt line typeColumn (typeParts group.isSigned group.range) ++ name :: rest := by
    rw [modifiers]
    cases group.isReg with
    | true => exact ⟨rfl, column + 3 + 1, rfl⟩
    | false =>
        obtain ⟨noReg, same⟩ := Source.skipIf_typeParts group.isSigned group.range line column
          identifier rest
        exact ⟨noReg, column, same⟩
  obtain ⟨isReg, typeColumn, skipped⟩ := reg
  obtain ⟨isSigned, range⟩ := Source.takeRange?_typeParts group.isSigned group.range line
    typeColumn noMark identifier rest
  simp only [Source.takePorts, isReg, skipped, isSigned, range]

/-- The tokens of a group: its direction, its modifiers, its names and its ending, each from some
column on. -/
theorem exists_tokensAt_parts (group : PortGroup) (ending : List Part) (line : Nat) :
    ∃ start nameStart endStart, tokensAt line 1 (group.parts ending) =
      ⟨.keyword group.direction.keyword, group.direction.keyword.spelling, line, 1⟩ ::
        (tokensAt line start group.modifiers ++
          (tokensAt line nameStart (nameParts group.names) ++ tokensAt line endStart ending)) := by
  have parts : tokensAt line 1 (group.parts ending) =
      _ :: tokensAt line _ (group.modifiers ++ (nameParts group.names ++ ending)) := rfl
  rw [Token.tokensAt_append, Token.tokensAt_append] at parts
  exact ⟨_, _, _, parts⟩

/-- The tokens of a list of names start with one of the names. -/
theorem exists_tokensAt_nameParts {names : List String} (some : names ≠ []) (line column : Nat) :
    ∃ name ∈ names, ∃ rest,
      tokensAt line column (nameParts names) = ⟨.identifier, name, line, column⟩ :: rest := by
  match names with
  | [] => exact (some rfl).elim
  | [name] => exact ⟨name, List.mem_cons_self, _, rfl⟩
  | name :: next :: names => exact ⟨name, List.mem_cons_self, _, rfl⟩

/-- A direction starts a declaration of ports. -/
theorem readItems_direction (direction : Direction) (line : Nat) (rest : List Token) :
    Source.readItems (⟨.keyword direction.keyword, direction.keyword.spelling, line, 1⟩ :: rest) =
      (Source.takePorts direction rest).1 ::
        Source.readItems (Source.takePorts direction rest).2 := by
  rw [Source.readItems]
  cases direction <;> rfl

/-- **The line of a group is read as one declaration.** -/
theorem readItems_parts (wellFormed : group.IsWellFormed) (line : Nat) {ending : List Part}
    {rest : List Token}
    (ends : ∀ column, Source.commaContinues (tokensAt line column ending ++ rest) = false) :
    ∃ column, Source.readItems (tokensAt line 1 (group.parts ending) ++ rest) =
      group.item line :: Source.readItems (tokensAt line column ending ++ rest) := by
  obtain ⟨start, nameStart, endStart, tokens⟩ := group.exists_tokensAt_parts ending line
  obtain ⟨name, member, following, head⟩ :=
    exists_tokensAt_nameParts wellFormed.some line nameStart
  have noMark : name ≠ "signed" := by
    rintro rfl
    exact (wellFormed.names "signed" member).2 (by decide)
  have names := Source.takePortNames_nameParts wellFormed.some line nameStart (ends endStart)
  have item : Source.takePorts group.direction (tokensAt line start group.modifiers ++
      (tokensAt line nameStart (nameParts group.names) ++
        (tokensAt line endStart ending ++ rest))) =
        (group.item line, tokensAt line endStart ending ++ rest) := by
    rw [head, List.cons_append] at names ⊢
    rw [takePorts_modifiers line start rfl noMark, names]
    rfl
  refine ⟨endStart, ?_⟩
  rw [tokens, List.cons_append, List.append_assoc, List.append_assoc, readItems_direction, item]

end PortGroup

namespace Header

open PortGroup

theorem readItems_operator (text : String) (line column : Nat) (rest : List Token) :
    Source.readItems (⟨.operator, text, line, column⟩ :: rest) = Source.readItems rest := by
  rw [Source.readItems]
  exact List.nil_append _

/-- The parts of the lines of the groups. -/
def groupParts : List PortGroup → List (List Part)
  | [] => []
  | [group] => [group.parts []]
  | group :: next :: groups => group.parts [.mark ','] :: groupParts (next :: groups)

/-- The lines of groups are spelled from their parts. -/
theorem toList_groupLines (groups : List PortGroup) :
    (groupLines groups).map String.toList = (groupParts groups).map spelled := by
  induction groups with
  | nil => rfl
  | cons group groups ih =>
      cases groups with
      | nil =>
          have line := group.toList_text []
          rw [show spelled [] = [] from rfl, List.append_nil] at line
          rw [groupLines, groupParts, List.map_singleton, List.map_singleton, line]
      | cons next groups =>
          rw [groupLines, groupParts, List.map_cons, List.map_cons, ih, String.toList_append,
            ← group.toList_text [.mark ',']]
          rfl

/-- The lines of well-formed groups are told apart into their parts. -/
theorem written_groupParts {groups : List PortGroup}
    (wellFormed : ∀ group ∈ groups, group.IsWellFormed) :
    ∀ parts ∈ groupParts groups, Written parts := by
  induction groups with
  | nil => exact List.forall_mem_nil _
  | cons group groups ih =>
      obtain ⟨first, others⟩ := List.forall_mem_cons.mp wellFormed
      cases groups with
      | nil => exact List.forall_mem_singleton.mpr (first.written .nil trivial)
      | cons next groups =>
          exact List.forall_mem_cons.mpr
            ⟨first.written (by decide) (by decide), ih others⟩

/-- The declarations of groups on consecutive lines. -/
def items (line : Nat) : List PortGroup → List Source.Item
  | [] => []
  | group :: groups => group.item line :: items (line + 1) groups

theorem headIs_groupParts (line : Nat) (group : PortGroup) (groups : List PortGroup)
    (rest : List Token) : Source.headIs Token.isIdentifier
      (tokensOfLines line (groupParts (group :: groups)) ++ rest) = false := by
  cases groups <;> rfl

/-- **The lines of the groups are read as their declarations.** -/
theorem readItems_groups {groups : List PortGroup}
    (wellFormed : ∀ group ∈ groups, group.IsWellFormed) (line : Nat) {rest : List Token}
    (ends : Source.commaContinues rest = false) :
    Source.readItems (tokensOfLines line (groupParts groups) ++ rest) =
      items line groups ++ Source.readItems rest := by
  induction groups generalizing line with
  | nil => rfl
  | cons group groups ih =>
      obtain ⟨first, others⟩ := List.forall_mem_cons.mp wellFormed
      cases groups with
      | nil =>
          have alone (column : Nat) :
              Source.commaContinues (tokensAt line column [] ++ rest) = false := ends
          obtain ⟨column, read⟩ := readItems_parts first line alone
          rw [groupParts, tokensOfLines, tokensOfLines, List.append_nil, read]
          rfl
      | cons next groups =>
          have noName (column : Nat) : Source.commaContinues (tokensAt line column [.mark ','] ++
              (tokensOfLines (line + 1) (groupParts (next :: groups)) ++ rest)) = false :=
            Source.commaContinues_eq_false (headIs_groupParts (line + 1) next groups rest)
          obtain ⟨column, read⟩ := readItems_parts first line noName
          rw [groupParts, tokensOfLines, List.append_assoc, read, items, List.cons_append,
            ← ih others (line + 1)]
          exact congrArg (_ :: ·) (readItems_operator "," line column _)

/-- The parts of the first line. -/
def openingParts (name : String) : List Part :=
  [.keyword .module_, .space, .lexeme .identifier name, .mark '(']

/-- The parts of the line after the ports. -/
def closingParts : List Part :=
  [.mark ')', .mark ';']

/-- The parts of the last line. -/
def lastParts : List Part :=
  [.keyword .endmodule]

/-- The parts of all lines. -/
def parts (header : Header) : List (List Part) :=
  openingParts header.name :: groupParts header.groups ++ [closingParts, lastParts]

theorem written_openingParts {name : String} (isName : Token.IsName name) :
    Written (openingParts name) :=
  (Token.isSolid_keyword .module_).before_space (isName.isSolid.before_mark (by decide) trivial)

theorem written_closingParts : Written closingParts := by
  decide

theorem written_lastParts : Written lastParts :=
  (Token.isSolid_keyword .endmodule).last

/-- The lines of a header are spelled from its parts. -/
theorem toList_lines (header : Header) :
    header.lines.map String.toList = header.parts.map spelled := by
  have opening : ("module " ++ header.name ++ "(").toList =
      spelled (openingParts header.name) := by
    rw [String.toList_append, String.toList_append, List.append_assoc]
    rfl
  rw [lines, parts, List.map_append, List.map_append, List.map_cons, List.map_cons, opening,
    toList_groupLines]
  rfl

/-- All lines of a well-formed header are told apart into their parts. -/
theorem IsWellFormed.written {header : Header} (wellFormed : header.IsWellFormed) :
    ∀ parts ∈ header.parts, Written parts := by
  have opening := written_openingParts wellFormed.name.1
  refine List.forall_mem_append.mpr ⟨List.forall_mem_cons.mpr
    ⟨opening, written_groupParts wellFormed.groups⟩, ?_⟩
  exact List.forall_mem_cons.mpr
    ⟨written_closingParts, List.forall_mem_singleton.mpr written_lastParts⟩

/-- **A header is read as its name and the declarations of its groups.** -/
theorem readModule?_parts {header : Header} (wellFormed : header.IsWellFormed) :
    Source.readModule? (tokensOfLines 1 header.parts) =
      some (header.name, items 2 header.groups) := by
  have opening (rest : List Token) (line column : Nat) : Source.readHeaderParameters
      (⟨.operator, "(", line, column⟩ :: rest) = ([], ⟨.operator, "(", line, column⟩ :: rest) := by
    cases rest <;> rfl
  have last (line column : Nat) :
      Source.readItems [⟨.keyword .endmodule, "endmodule", line, column⟩] = [] := by
    rw [Source.readItems]
    rfl
  have closing (line : Nat) : Source.readItems
      (tokensOfLines line [closingParts, lastParts]) = [] := by
    change Source.readItems [⟨.operator, ")", _, _⟩, ⟨.operator, ";", _, _⟩,
      ⟨.keyword .endmodule, "endmodule", _, _⟩] = []
    rw [readItems_operator, readItems_operator, last]
  rw [parts, List.cons_append, tokensOfLines, Token.tokensOfLines_append]
  generalize 1 + 1 + (groupParts header.groups).length = closingLine
  change (some (header.name, ⟨.operator, "(", _, _⟩ ::
    (tokensOfLines 2 (groupParts header.groups) ++
      tokensOfLines closingLine [closingParts, lastParts]))).map _ = _
  have ends : Source.commaContinues
      (tokensOfLines closingLine [closingParts, lastParts]) = false := rfl
  simp only [Option.map_some, opening, readItems_operator,
    readItems_groups wellFormed.groups 2 ends, closing, List.append_nil, List.nil_append]

end Header

end MiniVerilog
