import MiniVerilog.Proofs.Source.Quiet
import MiniVerilog.Testbench.Basic

/-! # The lines of a testbench

After its first line a testbench is made of declarations, one instance, and lines that mean
nothing where items are read (`MiniVerilog.Testbench.exists_written_lines`).
-/

namespace MiniVerilog.Testbench

open Token (Part spelled spaces tokensOf Written Delimited AreWritten IsLexeme)
open Source (Quiet identifier number word mark kindWord signalTokens connectionTokens
  instanceTokens)

/-- What is connected to a port: a variable to an input, a net to any other port. -/
def connectedKind : Direction → SignalKind
  | .input => .reg
  | .output | .inout => .wire

/-- The bounds that are written for a width. -/
def boundsOf (width : Nat) : Option (Nat × Nat) :=
  if 1 < width then some (width - 1, 0) else none

/-- The tokens of the declaration of what is connected to a port. -/
def declarationTokens (port : Port) : List Token :=
  signalTokens (connectedKind port.direction) (boundsOf port.width) port.name

/-- A range before a name is spelled as in a declaration. -/
theorem toList_rangeText (width : Nat) (name : String) :
    (rangeText width ++ " " ++ name).toList =
      ' ' :: (spelled (typeParts false (boundsOf width)) ++ name.toList) := by
  rw [String.toList_append, String.toList_append, rangeText, boundsOf]
  split
  · have bounds : spelled (typeParts false (some (width - 1, 0))) =
        '[' :: ((toString (width - 1)).toList ++ [':', '0', ']', ' ']) := rfl
    rw [bounds, String.toList_append, String.toList_append]
    simp only [List.append_assoc, List.cons_append]
    rfl
  · rfl

/-- The declaration of what is connected to a port is spelled from its parts. -/
theorem toList_declarationLine (port : Port) :
    (declarationLine port).toList = spelled (spaces 4 ++
      (.keyword (kindWord (connectedKind port.direction)) :: .space ::
        (typeParts false (boundsOf port.width) ++
          [.lexeme .identifier port.name, .mark ';']))) := by
  have line : declarationLine port = "    " ++
      (kindWord (connectedKind port.direction)).spelling ++
        (rangeText port.width ++ " " ++ port.name) ++ ";" := by
    simp only [declarationLine, String.append_assoc]
    cases port.direction <;> rfl
  rw [line, String.toList_append, String.toList_append, String.toList_append, toList_rangeText,
    Token.spelled_append, Token.spelled_spaces]
  change _ = _ ++ (_ ++ ' ' :: spelled (typeParts false (boundsOf port.width) ++ _))
  rw [Token.spelled_append]
  simp only [List.append_assoc, List.cons_append]
  rfl

/-- **The declaration for a port** is written with its kind, its bounds and its name. -/
theorem areWritten_declarationLine {port : Port} (name : IsLexeme .identifier port.name) :
    AreWritten [declarationLine port] (declarationTokens port) := by
  have written : Written (.keyword (kindWord (connectedKind port.direction)) :: .space ::
      (typeParts false (boundsOf port.width) ++
        [.lexeme .identifier port.name, .mark ';'])) := by
    refine (Token.isSolid_keyword _).before_space ?_
    exact (written_typeParts _ _).append (closed_typeParts _ _)
      (name.isSolid_identifier.before_mark (by decide) trivial)
  have areWritten := AreWritten.indented (toList_declarationLine port) written
  rw [tokensOf, tokensOf, Token.tokensOf_append] at areWritten
  exact areWritten

/-- A line that starts with a name. -/
theorem areWritten_name {margin name text : String} {size : Nat} {parts : List Part}
    (blank : margin.toList = List.replicate size ' ') (lexeme : IsLexeme .identifier name)
    (spelling : text.toList = spelled parts) (delimited : Delimited (spelled parts))
    (written : Written parts) :
    AreWritten [margin ++ name ++ text] (identifier name :: tokensOf parts) := by
  have all : (margin ++ name ++ text).toList =
      spelled (spaces size ++ .lexeme .identifier name :: parts) := by
    rw [String.toList_append, String.toList_append, blank, spelling, List.append_assoc,
      Token.spelled_append, Token.spelled_spaces]
    rfl
  have named : Written (.lexeme .identifier name :: parts) :=
    ⟨lexeme.isSolid_identifier, delimited, written⟩
  exact .indented all named

/-- The parts of a connection by name, with spaces after the first name. -/
def connectionParts (padding : Nat) (name : String) (ending : List Part) : List Part :=
  .mark '.' :: .lexeme .identifier name :: (spaces padding ++
    .space :: .mark '(' :: .lexeme .identifier name :: .mark ')' :: ending)

/-- A connection by name is told apart into its parts, whatever the padding. -/
theorem written_connectionParts {name : String} (lexeme : IsLexeme .identifier name)
    (padding : Nat) {ending : List Part} (written : Written ending) :
    Written (connectionParts padding name ending) := by
  have solid := lexeme.isSolid_identifier
  have net : Written (.space :: .mark '(' :: .lexeme .identifier name :: .mark ')' :: ending) :=
    ((solid.before_mark (by decide) written).mark (by decide)).space
  have delimited : Delimited (spelled (spaces padding ++
      .space :: .mark '(' :: .lexeme .identifier name :: .mark ')' :: ending)) := by
    cases padding <;> exact .cons (by decide) _
  exact Written.mark ⟨solid, delimited, net.spaces_append padding⟩ (by decide)

/-- **A connection by name is scanned into its tokens**, and the padding gives none. -/
theorem areWritten_connection {name : String} (lexeme : IsLexeme .identifier name)
    (length : Nat) {comma : String} {ending : List Part} (spelling : comma.toList = spelled ending)
    (written : Written ending) :
    AreWritten ["        ." ++ Text.padded length name ++ " (" ++ name ++ ")" ++ comma]
      (mark "." :: identifier name :: mark "(" :: identifier name :: mark ")" ::
        tokensOf ending) := by
  have parts : ("        ." ++ Text.padded length name ++ " (" ++ name ++ ")" ++ comma).toList =
      spelled (spaces 8 ++ connectionParts (length - name.length) name ending) := by
    rw [connectionParts, Token.spelled_append, Token.spelled_spaces]
    change _ = _ ++ '.' :: (name.toList ++ spelled (spaces _ ++ _))
    rw [Token.spelled_append, Token.spelled_spaces]
    simp only [Text.padded, String.toList_append, String.toList_ofList, spelling, List.append_assoc]
    rfl
  have areWritten := AreWritten.indented parts
    (written_connectionParts lexeme (length - name.length) written)
  rw [connectionParts, tokensOf, tokensOf, Token.tokensOf_append, Token.tokensOf_spaces]
    at areWritten
  exact areWritten

/-- **The connections of ports** are written with the names of the ports. -/
theorem areWritten_connectionLines (length : Nat) {ports : List Port}
    (names : ∀ port ∈ ports, IsLexeme .identifier port.name) :
    AreWritten (connectionLines length ports) (connectionTokens (ports.map Port.name)) := by
  induction ports with
  | nil => exact .nil
  | cons port ports ih =>
      obtain ⟨first, others⟩ := List.forall_mem_cons.mp names
      cases ports with
      | nil =>
          have noComma : "".toList = spelled [] := rfl
          exact areWritten_connection first length noComma trivial
      | cons next ports =>
          have comma : ",".toList = spelled [.mark ','] := rfl
          exact (areWritten_connection first length comma (by decide)).append (ih others)

/-- **The instance** is written with the names of its module and of the ports. -/
theorem areWritten_instanceLines {module : Module} (name : IsLexeme .identifier module.name)
    (ports : ∀ port ∈ module.ports, IsLexeme .identifier port.name) :
    AreWritten (instanceLines module)
      (instanceTokens module.name "uut" (module.ports.map Port.name)) := by
  have margin : "    ".toList = List.replicate 4 ' ' := rfl
  rw [instanceLines]
  split
  · rename_i none
    have spelling : " uut ();".toList = spelled [.space, .lexeme .identifier "uut", .space,
        .mark '(', .mark ')', .mark ';'] := rfl
    rw [List.isEmpty_iff.mp none]
    exact areWritten_name margin name spelling (by decide) (by decide)
  · have spelling : " uut (".toList = spelled [.space, .lexeme .identifier "uut", .space,
        .mark '('] := rfl
    have last : "    );".toList = spelled (spaces 4 ++ [.mark ')', .mark ';']) := rfl
    have opening := areWritten_name margin name spelling (by decide) (by decide)
    have closing := AreWritten.single last (by decide)
    have connections := areWritten_connectionLines
      ((module.ports.map fun port => port.name.utf8ByteSize).foldl max 0) ports
    have all := (opening.append connections).append closing
    rw [List.append_assoc] at all
    exact all

/-- Lines that are passed over where items are read. -/
def AreQuiet (lines : List String) : Prop :=
  ∃ tokens, AreWritten lines tokens ∧ Quiet tokens

namespace AreQuiet

variable {lines others : List String}

theorem nil : AreQuiet [] :=
  ⟨[], .nil, .nil⟩

theorem single {line : String} {parts : List Part} (spelling : line.toList = spelled parts)
    (written : Written parts) (quiet : Quiet (tokensOf parts)) : AreQuiet [line] :=
  ⟨tokensOf parts, .single spelling written, quiet⟩

/-- Quiet lines after quiet lines are quiet. -/
theorem append (first : AreQuiet lines) (second : AreQuiet others) :
    AreQuiet (lines ++ others) := by
  obtain ⟨tokens, written, quiet⟩ := first
  obtain ⟨following, otherWritten, otherQuiet⟩ := second
  exact ⟨tokens ++ following, written.append otherWritten, quiet.append otherQuiet⟩

/-- Lines of entries are quiet if those of every entry are. -/
theorem flatMap {α : Type} {entries : List α} {linesOf : α → List String}
    (each : ∀ entry ∈ entries, AreQuiet (linesOf entry)) : AreQuiet (entries.flatMap linesOf) := by
  induction entries with
  | nil => exact nil
  | cons entry entries ih =>
      obtain ⟨first, others⟩ := List.forall_mem_cons.mp each
      exact first.append (ih others)

theorem map {α : Type} {entries : List α} {lineOf : α → String}
    (each : ∀ entry ∈ entries, AreQuiet [lineOf entry]) : AreQuiet (entries.map lineOf) := by
  rw [List.map_eq_flatMap]
  exact flatMap each

end AreQuiet

theorem areQuiet_empty : AreQuiet [""] := by
  have spelling : "".toList = spelled [] := rfl
  exact .single spelling trivial .nil

/-- A text that is written and passed over as the value of an assignment. -/
def IsValue (value : String) : Prop :=
  ∃ parts, value.toList = spelled parts ∧ Written (parts ++ [.mark ';']) ∧ Quiet (tokensOf parts)

theorem isValue_bit {value : String} (bit : value = "0" ∨ value = "1") : IsValue value := by
  rcases bit with rfl | rfl
  · exact ⟨[.lexeme .number "0"], rfl, by decide, .of_number "0"⟩
  · exact ⟨[.lexeme .number "1"], rfl, by decide, .of_number "1"⟩

/-- All ones of any width are a value: one bit, or a replication in braces, whose tokens are all
passed over. -/
theorem isValue_allOnes (width : Nat) : IsValue (allOnes width) := by
  rw [allOnes]
  split
  · refine ⟨[.mark '\x7b', .lexeme .number (toString width), .mark '\x7b', .lexeme .number "1'b1",
      .mark '\x7d', .mark '\x7d'], ?_, ?_, ?_⟩
    · rw [String.toList_append, String.toList_append, List.append_assoc]
      rfl
    · exact ((Token.isSolid_number width).before_mark (by decide) (by decide)).mark (by decide)
    · exact .append (.of_mark "\x7b") (.append (.of_number (toString width))
        (.append (.of_mark "\x7b") (.append (.of_number "1'b1")
          (.append (.of_mark "\x7d") (.of_mark "\x7d")))))
  · exact isValue_bit (.inr rfl)

/-- A reset has a bit as its value. -/
theorem isValue_resetValue (asserted : Bool) (name : String) :
    IsValue (resetValue asserted name) := by
  refine isValue_bit ?_
  rw [resetValue]
  split
  · exact .inl rfl
  · exact .inr rfl

/-- The assignment of a value to a name is quiet. -/
theorem areQuiet_assignLine {name value : String} (lexeme : IsLexeme .identifier name)
    (isValue : IsValue value) : AreQuiet [assignLine name value] := by
  obtain ⟨parts, spelling, written, quiet⟩ := isValue
  have margin : "        ".toList = List.replicate 8 ' ' := rfl
  have text : (" = " ++ value ++ ";").toList =
      spelled (.space :: .lexeme .operator "=" :: .space :: (parts ++ [.mark ';'])) := by
    rw [String.toList_append, String.toList_append, spelling]
    change _ = ' ' :: '=' :: ' ' :: spelled (parts ++ [.mark ';'])
    rw [Token.spelled_append]
    rfl
  have line : assignLine name value = "        " ++ name ++ (" = " ++ value ++ ";") := by
    simp only [assignLine, String.append_assoc]
  rw [line]
  have equals : Token.IsSolid .operator "=" := by decide
  refine ⟨_, areWritten_name margin lexeme text (.cons (by decide) _)
    (equals.before_space written).space, ?_⟩
  change Quiet ([identifier name, mark "="] ++ tokensOf (parts ++ [.mark ';']))
  rw [Token.tokensOf_append]
  exact (Quiet.of_name name (by decide)).append (quiet.append (.of_mark ";"))

/-- The line that toggles a clock is quiet. -/
theorem areQuiet_clockLine {name : String} (lexeme : IsLexeme .identifier name) :
    AreQuiet ["        forever #5 " ++ name ++ " = ~" ++ name ++ ";"] := by
  have solid := lexeme.isSolid_identifier
  have equals : Token.IsSolid .operator "=" := by decide
  have five : Token.IsSolid .number "5" := by decide
  have spelling : ("        forever #5 " ++ name ++ " = ~" ++ name ++ ";").toList =
      spelled (spaces 8 ++ [.keyword .forever, .space, .mark '#', .lexeme .number "5", .space,
        .lexeme .identifier name, .space, .lexeme .operator "=", .space, .mark '~',
        .lexeme .identifier name, .mark ';']) := by
    simp only [String.toList_append, List.append_assoc]
    rfl
  have delay : Quiet [word .forever, mark "#", number "5"] :=
    (Quiet.of_word (by decide)).append ((Quiet.of_mark "#").append (.of_number "5"))
  have toggle : Quiet [identifier name, mark "=", mark "~", identifier name, mark ";"] :=
    (Quiet.of_name name (by decide)).append
      ((Quiet.of_mark "~").append (.of_name name (by decide)))
  have assignment : Written [.lexeme .identifier name, .space, .lexeme .operator "=", .space,
      .mark '~', .lexeme .identifier name, .mark ';'] :=
    solid.before_space (equals.before_space
      ⟨by decide, solid.before_mark (by decide) trivial⟩)
  refine .single spelling (Written.spaces_append ?_ 8) (delay.append toggle)
  exact (Token.isSolid_keyword .forever).before_space
    ((five.before_space assignment).mark (by decide))

/-- An initial block of quiet lines is quiet: no item starts in it. -/
theorem areQuiet_initialBlock {body : List String} (quiet : AreQuiet body) :
    AreQuiet (initialBlock body) := by
  have opening : "    initial begin".toList =
      spelled (spaces 4 ++ [.lexeme .identifier "initial", .space, .keyword .begin_]) := rfl
  have closing : "    end".toList = spelled (spaces 4 ++ [.keyword .end_]) := rfl
  have begins : Quiet [identifier "initial", word .begin_] :=
    (Quiet.of_reserved (by decide)).append (.of_word (by decide))
  have ends : Quiet [word .end_] := .of_word (by decide)
  exact ((areQuiet_empty.append (.single opening (by decide) begins)).append quiet).append
    (.single closing (by decide) ends)

/-- A delay is quiet. -/
theorem areQuiet_delayLine {line : String} (delay : String)
    (spelling : line.toList = spelled (spaces 8 ++ [.mark '#', .lexeme .number delay, .mark ';']))
    (solid : Token.IsSolid .number delay) : AreQuiet [line] := by
  refine .single spelling (Written.spaces_append ?_ 8)
    ((Quiet.of_mark "#").append ((Quiet.of_number delay).append (.of_mark ";")))
  exact Written.mark (solid.before_mark (by decide) trivial) (by decide)

section Module

variable {module : Module} (names : ∀ port ∈ module.ports, IsLexeme .identifier port.name)
include names

/-- The blocks of the clocks are quiet. -/
theorem areQuiet_clocks : AreQuiet ((clocks module).flatMap clockBlock) := by
  refine .flatMap fun clock member => ?_
  have lexeme := names clock (List.mem_of_mem_filter member)
  exact areQuiet_initialBlock ((areQuiet_assignLine lexeme (isValue_bit (.inl rfl))).append
    (areQuiet_clockLine lexeme))

/-- The block of the resets is quiet, if it is there. -/
theorem areQuiet_resetBlock : AreQuiet (resetBlock (resets module)) := by
  rw [resetBlock]
  split
  · exact .nil
  · have assigned (asserted : Bool) : AreQuiet ((resets module).map fun reset =>
        assignLine reset.name (resetValue asserted reset.name)) := by
      refine .map fun reset member => ?_
      exact areQuiet_assignLine (names reset (List.mem_of_mem_filter member))
        (isValue_resetValue asserted reset.name)
    have delay : AreQuiet ["        #20;"] := areQuiet_delayLine "20" rfl (by decide)
    exact areQuiet_initialBlock (((assigned true).append delay).append (assigned false))

/-- The block for the other inputs is quiet. -/
theorem areQuiet_stimulusBlock : AreQuiet (stimulusBlock (stimuli module)) := by
  have assigned {value : Port → String} (isValue : ∀ port, IsValue (value port)) :
      AreQuiet ((stimuli module).map fun port => assignLine port.name (value port)) := by
    refine .map fun port member => ?_
    exact areQuiet_assignLine (names port (List.mem_of_mem_filter member)) (isValue port)
  have ones := assigned fun port => isValue_allOnes port.width
  have zeros := assigned fun _ => isValue_bit (.inl rfl)
  have delay : AreQuiet ["        #100;"] := areQuiet_delayLine "100" rfl (by decide)
  have spelling : "        $finish;".toList =
      spelled (spaces 8 ++ [.lexeme .identifier "$finish", .mark ';']) := rfl
  have finish : AreQuiet ["        $finish;"] :=
    .single spelling (by decide) (.of_name "$finish" (by decide))
  exact areQuiet_initialBlock (((ones.append delay).append zeros).append (delay.append finish))

end Module

/-- **After its first line a testbench is written** with the header of a module, declarations, an
instance, and tokens that are passed over. -/
theorem exists_written_lines {module : Module} (name : IsLexeme .identifier module.name)
    (benchName : IsLexeme .identifier (module.name ++ "_tb"))
    (ports : ∀ port ∈ module.ports, IsLexeme .identifier port.name) :
    ∃ texts blocks, lines module = "`timescale 1ns / 1ps" :: texts ∧ Quiet blocks ∧
      AreWritten texts (word .module_ :: identifier (module.name ++ "_tb") :: mark ";" ::
        (module.ports.flatMap declarationTokens ++
          (instanceTokens module.name "uut" (module.ports.map Port.name) ++
            (blocks ++ [word .endmodule])))) := by
  obtain ⟨blocks, written, quiet⟩ := ((areQuiet_clocks ports).append
    (areQuiet_resetBlock ports)).append ((areQuiet_stimulusBlock ports).append areQuiet_empty)
  have empty : AreWritten [""] [] := by
    have spelling : "".toList = spelled [] := rfl
    exact .single spelling trivial
  have header : AreWritten ["", "module " ++ module.name ++ "_tb;", ""]
      [word .module_, identifier (module.name ++ "_tb"), mark ";"] := by
    have spelling : ("module " ++ module.name ++ "_tb;").toList =
        spelled [.keyword .module_, .space, .lexeme .identifier (module.name ++ "_tb"),
          .mark ';'] := by
      change _ = "module ".toList ++ ((module.name ++ "_tb").toList ++ ";".toList)
      simp only [String.toList_append, List.append_assoc]
      rfl
    have opening := AreWritten.single spelling ((Token.isSolid_keyword .module_).before_space
      (benchName.isSolid_identifier.before_mark (by decide) trivial))
    exact empty.append (opening.append empty)
  have declarations : AreWritten (module.ports.map declarationLine)
      (module.ports.flatMap declarationTokens) :=
    .map fun port member => areWritten_declarationLine (ports port member)
  have gap : AreWritten (if module.ports.isEmpty then [] else [""]) [] := by
    split
    · exact .nil
    · exact empty
  have last : AreWritten ["endmodule"] [word .endmodule] := by
    have spelling : "endmodule".toList = spelled [.keyword .endmodule] := rfl
    exact .single spelling (by decide)
  have all := header.append ((declarations.append gap).append
    ((areWritten_instanceLines name ports).append (written.append last)))
  have split : lines module = "`timescale 1ns / 1ps" ::
      (["", "module " ++ module.name ++ "_tb;", ""] ++
        ((module.ports.map declarationLine ++ if module.ports.isEmpty then [] else [""]) ++
          (instanceLines module ++ ((clocks module).flatMap clockBlock ++
            resetBlock (resets module) ++ (stimulusBlock (stimuli module) ++ [""]) ++
              ["endmodule"])))) := by
    simp only [lines, List.append_assoc, List.cons_append, List.nil_append]
  rw [List.append_nil] at all
  exact ⟨_, blocks, split, quiet, all⟩

/-- The only blanks in the lines of a testbench are spaces. -/
theorem isLine_of_mem_lines {module : Module} (name : IsLexeme .identifier module.name)
    (benchName : IsLexeme .identifier (module.name ++ "_tb"))
    (ports : ∀ port ∈ module.ports, IsLexeme .identifier port.name) :
    ∀ line ∈ lines module, Text.IsLine line := by
  obtain ⟨texts, blocks, split, -, written⟩ := exists_written_lines name benchName ports
  have timescale : Text.IsLine "`timescale 1ns / 1ps" := by decide
  rw [split]
  exact List.forall_mem_cons.mpr ⟨timescale, written.isLine⟩

end MiniVerilog.Testbench
