import MiniVerilog.Proofs.Module.Place
import MiniVerilog.Proofs.Module.Ports
import MiniVerilog.Proofs.Testbench.Lines

/-! # Testbenches that are read back

The testbench of a module that was read is itself read, as a module without ports that declares a
signal for every port and connects it to one instance
(`MiniVerilog.Testbench.ofSource?_testbench`).
-/

namespace MiniVerilog.Testbench

open Token (Written AreWritten IsLexeme)
open Source (Quiet identifier number word mark instanceTokens readItems)

/-- The tokens of the first line. -/
def timescaleTokens : List Token :=
  [identifier "timescale", number "1", identifier "ns", mark "/", number "1", identifier "ps"]

/-- **The tokens of a testbench.** -/
theorem exists_bare_scan_text {module : Module} (name : IsLexeme .identifier module.name)
    (benchName : IsLexeme .identifier (module.name ++ "_tb"))
    (ports : ∀ port ∈ module.ports, IsLexeme .identifier port.name) :
    ∃ blocks, Quiet blocks ∧
      ((Token.scan (text module)).filter fun token => token.kind != .comment).map Token.bare =
        timescaleTokens ++ (word .module_ :: identifier (module.name ++ "_tb") :: mark ";" ::
          (module.ports.flatMap declarationTokens ++
            (instanceTokens module.name "uut" (module.ports.map Port.name) ++
              (blocks ++ [word .endmodule])))) := by
  obtain ⟨texts, blocks, split, quiet, written⟩ := exists_written_lines name benchName ports
  have areLines := isLine_of_mem_lines name benchName ports
  -- The first line is not written from parts: no token starts at its backquote.
  have first : Token.scanLine 1 false "`timescale 1ns / 1ps".toList =
      ([⟨.identifier, "timescale", 1, 2⟩, ⟨.number, "1", 1, 12⟩, ⟨.identifier, "ns", 1, 13⟩,
        ⟨.operator, "/", 1, 16⟩, ⟨.number, "1", 1, 18⟩, ⟨.identifier, "ps", 1, 19⟩], false) := by
    decide +kernel
  refine ⟨blocks, quiet, ?_⟩
  rw [Token.scan, text, Token.lines_join areLines, split, List.map_cons, Token.scanLines_cons,
    first, List.filter_append, List.map_append, written.bare_scanLines]
  rfl

/-- The item that declares what is connected to a port. -/
def declarationItem (port : Port) : Source.Item :=
  .signals (connectedKind port.direction) false (rangeWords (boundsOf port.width))
    [⟨port.name, 0, none⟩]

/-- **The declarations of a testbench are read back**, one item for each port. -/
theorem readItems_declarations {ports : List Port} (noMark : "signed" ∉ ports.map Port.name)
    (rest : List Token) :
    readItems (ports.flatMap declarationTokens ++ rest) =
      ports.map declarationItem ++ readItems rest := by
  induction ports with
  | nil => rfl
  | cons port ports ih =>
      rw [List.map_cons, List.mem_cons, not_or] at noMark
      rw [List.flatMap_cons, List.append_assoc, declarationTokens,
        Source.readItems_signal _ _ (Ne.symm noMark.1), ih noMark.2]
      rfl

/-- **A testbench is read** as declarations and an instance. -/
theorem readModule?_tokens {moduleName benchName : String} {ports : List Port} {blocks : List Token}
    (isModule : Source.isInstanceName moduleName = true)
    (noMark : "signed" ∉ ports.map Port.name) (quiet : Quiet blocks) :
    Source.readModule? (timescaleTokens ++ (word .module_ :: identifier benchName :: mark ";" ::
        (ports.flatMap declarationTokens ++
          (instanceTokens moduleName "uut" (ports.map Port.name) ++
            (blocks ++ [word .endmodule]))))) =
      some (benchName, ports.map declarationItem ++
        [.instanceOf ⟨moduleName, "uut",
          (ports.map Port.name).map fun name => (name, name), 0⟩]) := by
  have noParameters (rest : List Token) : Source.readHeaderParameters (mark ";" :: rest) =
      ([], mark ";" :: rest) := by
    cases rest <;> rfl
  have last : readItems [word .endmodule] = [] := by
    rw [readItems]
    rfl
  have uut : Source.isInstanceName "uut" = true := by decide
  have header (rest : List Token) : Source.findHeader (timescaleTokens ++
      (word .module_ :: identifier benchName :: rest)) = some (benchName, rest) := rfl
  rw [Source.readModule?, header, Option.map_some]
  simp only [noParameters, List.nil_append]
  rw [← List.singleton_append, Quiet.of_mark, readItems_declarations noMark,
    Source.readItems_instance _ isModule uut, quiet, last]

/-- What is connected to a port. -/
def connectedSignal (port : Port) : Signal :=
  ⟨port.name, connectedKind port.direction, port.width, false, none, 0⟩

/-- The bounds that are written for a width have that width. -/
theorem rangeBits_boundsOf {width : Nat} (pos : 0 < width) (le : width ≤ Value.maxWidth) :
    rangeBits (boundsOf width) = width := by
  unfold boundsOf
  split
  · simp only [rangeBits]
    omega
  · simp only [rangeBits]
    omega

/-- The bounds that are written for a width fit in a value. -/
theorem boundsOf_lt {width : Nat} (le : width ≤ Value.maxWidth) {high low : Nat}
    (bounds : boundsOf width = some (high, low)) : high < 2 ^ 63 ∧ low < 2 ^ 63 := by
  have small : Value.maxWidth < 2 ^ 63 := by decide
  unfold boundsOf at bounds
  split at bounds
  · cases bounds
    omega
  · cases bounds

/-- **A declaration of a new name adds a signal** of the width of its port. -/
theorem addItem_declarationItem {name : String} {signals : List Signal} {port : Port}
    (width : 0 < port.width ∧ port.width ≤ Value.maxWidth)
    (fresh : port.name ∉ signals.map Signal.name) :
    Module.addItem { name := name, signals := signals } (declarationItem port) =
      { name := name, signals := signals ++ [connectedSignal port] } := by
  have bits (module : Module) :
      module.widthOfRange (rangeWords (boundsOf port.width)) = port.width := by
    rw [module.widthOfRange_rangeWords fun high low => boundsOf_lt width.2,
      rangeBits_boundsOf width.1 width.2]
  have declared : declare Signal.name (connectedSignal port) signals =
      signals ++ [connectedSignal port] := declare_of_not_mem fresh
  rw [declarationItem, Module.addItem, bits, List.foldl_cons, List.foldl_nil, ← declared,
    connectedSignal]
  generalize connectedKind port.direction = kind
  cases kind <;> rfl

/-- **The declarations are signals for the ports** in the order of the ports. -/
theorem foldl_declarationItems {name : String} {signals : List Signal} {ports : List Port}
    (widths : ∀ port ∈ ports, 0 < port.width ∧ port.width ≤ Value.maxWidth)
    (distinct : (signals.map Signal.name ++ ports.map Port.name).Nodup) :
    (ports.map declarationItem).foldl Module.addItem { name := name, signals := signals } =
      { name := name, signals := signals ++ ports.map connectedSignal } := by
  induction ports generalizing signals with
  | nil => rw [List.map_nil, List.map_nil, List.append_nil, List.foldl_nil]
  | cons port ports ih =>
      obtain ⟨width, others⟩ := List.forall_mem_cons.mp widths
      have fresh : port.name ∉ signals.map Signal.name := fun member =>
        (List.nodup_append.mp distinct).2.2 _ member _ List.mem_cons_self rfl
      have known : ((signals ++ [connectedSignal port]).map Signal.name ++
          ports.map Port.name).Nodup := by
        rw [List.map_append, List.append_assoc]
        exact distinct
      rw [List.map_cons, List.foldl_cons, addItem_declarationItem width fresh, ih others known,
        List.append_assoc]
      rfl

/-- The name of the testbench is a name, as no reserved word ends in `_tb`. -/
theorem isLexeme_benchName {name : String} (lexeme : IsLexeme .identifier name) :
    IsLexeme .identifier (name ++ "_tb") := by
  have letters : ∀ c ∈ "_tb".toList, Token.isNameChar c = true :=
    List.all_iff_forall_prop.mp (by decide)
  have endings : ∀ keyword ∈ Keyword.all, ¬ "_tb".toList <:+ keyword.spelling.toList := by decide
  refine lexeme.append letters (List.find?_eq_none.mpr fun keyword member => ?_)
  rw [decide_eq_true_eq]
  intro same
  refine endings keyword member ⟨name.toList, ?_⟩
  rw [same, String.toList_append]

/-- **A testbench is read back as the interface it was made for.** It has the name of the module
with `_tb` behind it, no ports, a signal for every port in the order of the ports, and one
instance that connects each port to the signal of its name. -/
theorem ofSource?_testbench {source : String} {module : Module}
    (parsed : Module.ofSource? source = some module)
    (noSystem : module.name.toList.head? ≠ some '$')
    (unreserved : module.name ∉ ["initial", "final", "generate"])
    (noMark : "signed" ∉ module.ports.map Port.name) :
    (Module.ofSource? (text module)).map Module.bare =
      some { name := module.name ++ "_tb"
             signals := module.ports.map connectedSignal
             instances := [⟨module.name, "uut",
               module.ports.map fun port => (port.name, port.name), 0⟩] } := by
  have isModule : Source.isInstanceName module.name = true := by
    simp only [List.mem_cons, List.not_mem_nil, or_false, not_or] at unreserved
    obtain ⟨noInitial, noFinal, noGenerate⟩ := unreserved
    rw [Source.isInstanceName, bne_iff_ne.mpr noSystem, beq_eq_false_iff_ne.mpr noInitial,
      beq_eq_false_iff_ne.mpr noFinal, beq_eq_false_iff_ne.mpr noGenerate]
    rfl
  have name := Module.isLexeme_name parsed
  have fit := Module.portsFit_of_ofSource? parsed
  obtain ⟨blocks, quiet, tokens⟩ := exists_bare_scan_text name (isLexeme_benchName name)
    fun port => Module.isLexeme_of_mem_ports parsed
  have declared : (module.ports.map declarationItem).foldl Module.addItem
      { name := module.name ++ "_tb" } =
        { name := module.name ++ "_tb", signals := module.ports.map connectedSignal } :=
    foldl_declarationItems fit.widths fit.distinct
  have connected : Module.ofItems (module.name ++ "_tb") (module.ports.map declarationItem ++
      [.instanceOf ⟨module.name, "uut",
        (module.ports.map Port.name).map fun name => (name, name), 0⟩]) =
      { name := module.name ++ "_tb"
        signals := module.ports.map connectedSignal
        instances := [⟨module.name, "uut",
          module.ports.map fun port => (port.name, port.name), 0⟩] } := by
    rw [Module.ofItems, List.foldl_append, declared, List.map_map]
    rfl
  rw [Module.ofSource?, ← Module.ofTokens?_bare, tokens, Module.ofTokens?,
    readModule?_tokens isModule noMark quiet]
  exact congrArg some connected

/-- A clock, a port with a range and a bidirectional port. -/
theorem ofSource?_testbench_counter :
    ∃ module, Module.ofSource? "module counter(input clk, output [7:0] q, inout io); endmodule" =
        some module ∧
      (Module.ofSource? (text module)).map Module.bare =
        some { name := "counter_tb"
               signals := [⟨"clk", .reg, 1, false, none, 0⟩, ⟨"q", .wire, 8, false, none, 0⟩,
                 ⟨"io", .wire, 1, false, none, 0⟩]
               instances :=
                 [⟨"counter", "uut", [("clk", "clk"), ("q", "q"), ("io", "io")], 0⟩] } := by
  have parsed : Module.ofSource?
      "module counter(input clk, output [7:0] q, inout io); endmodule" =
        some { name := "counter"
               ports := [⟨"clk", .input, 1, false, 1⟩, ⟨"q", .output, 8, false, 1⟩,
                 ⟨"io", .inout, 1, false, 1⟩] } := by
    decide +kernel
  exact ⟨_, parsed, ofSource?_testbench parsed (by decide) (by decide) (by decide)⟩

end MiniVerilog.Testbench
