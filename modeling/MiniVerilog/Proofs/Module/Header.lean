import MiniVerilog.Proofs.Lint.Header
import MiniVerilog.Proofs.Module.Ports

/-! # Modules that are only a header

A header is read as a module with the ports it declares, one after another
(`MiniVerilog.Header.ofSource?_text`). The linter finds the same name, ports and variables in it
(`MiniVerilog.Header.readers_agree`), although it reads single lines and not the tokens of the
text.
-/

namespace MiniVerilog

open Token (Part spelled tokensAt tokensOfLines Written)

namespace Module

section Ports

variable {name : String} {ports : List Port} {signals : List Signal} {declared : List String}

/-- A port with a new name. -/
theorem addPort_of_not_mem (direction : Direction) (isReg signed : Bool) (width : Nat)
    {declarator : Source.Declarator} (inPorts : declarator.name ∉ ports.map Port.name)
    (inSignals : declarator.name ∉ signals.map Signal.name) :
    addPort direction isReg signed width { name := name, ports := ports, signals := signals }
        declarator =
      { name := name
        ports := ports ++ [⟨declarator.name, direction, width, signed, declarator.line⟩]
        signals := signals ++ if isReg then
          [⟨declarator.name, .reg, width, signed, none, declarator.line⟩] else [] } := by
  have port : declare Port.name ⟨declarator.name, direction, width, signed, declarator.line⟩ ports =
      ports ++ [⟨declarator.name, direction, width, signed, declarator.line⟩] :=
    declare_of_not_mem inPorts
  have signal :
      declare Signal.name ⟨declarator.name, .reg, width, signed, none, declarator.line⟩ signals =
        signals ++ [⟨declarator.name, .reg, width, signed, none, declarator.line⟩] :=
    declare_of_not_mem inSignals
  cases isReg with
  | false =>
      simp only [addPort, declarePort, port, Bool.false_eq_true, ↓reduceIte, List.append_nil]
  | true => simp only [addPort, declarePort, declareSignal, port, signal, ↓reduceIte]

/-- Ports with new names are declared one after another. -/
theorem foldl_addPort (direction : Direction) (isReg signed : Bool) (width line : Nat)
    {names : List String} (inPorts : ports.map Port.name ⊆ declared)
    (inSignals : signals.map Signal.name ⊆ declared) (fresh : (declared ++ names).Nodup) :
    (names.map fun name => (⟨name, line, none⟩ : Source.Declarator)).foldl
        (addPort direction isReg signed width)
        { name := name, ports := ports, signals := signals } =
      { name := name
        ports := ports ++ names.map fun name => ⟨name, direction, width, signed, line⟩
        signals := signals ++ if isReg then
          names.map fun name => ⟨name, .reg, width, signed, none, line⟩ else [] } := by
  induction names generalizing ports signals declared with
  | nil =>
      rw [List.map_nil, List.foldl_nil, List.map_nil, List.map_nil, List.append_nil, ite_self,
        List.append_nil]
  | cons first names ih =>
      -- The names declared so far grow with each port, whether or not it is a variable.
      have new : first ∉ declared := fun member =>
        (List.nodup_append.mp fresh).2.2 first member first List.mem_cons_self rfl
      have grown : declared ++ [first] ++ names = declared ++ first :: names := by
        rw [List.append_assoc, List.singleton_append]
      have kept : declared ⊆ declared ++ [first] := List.subset_append_left _ _
      have added : [first] ⊆ declared ++ [first] := List.subset_append_right _ _
      have portNames : (ports ++ ([⟨first, direction, width, signed, line⟩] : List Port)).map
          Port.name ⊆ declared ++ [first] := by
        rw [List.map_append]
        exact List.append_subset.mpr ⟨List.Subset.trans inPorts kept, added⟩
      have signalNames : (signals ++ if isReg then
          ([⟨first, .reg, width, signed, none, line⟩] : List Signal) else []).map
            Signal.name ⊆ declared ++ [first] := by
        rw [List.map_append]
        refine List.append_subset.mpr ⟨List.Subset.trans inSignals kept, ?_⟩
        split
        · exact added
        · exact List.nil_subset _
      have others := ih portNames signalNames (grown ▸ fresh)
      rw [List.map_cons, List.foldl_cons,
        addPort_of_not_mem direction isReg signed width (fun member => new (inPorts member))
          (fun member => new (inSignals member)), others]
      cases isReg <;> simp only [List.map_cons, List.append_assoc, List.singleton_append,
        Bool.false_eq_true, ↓reduceIte, List.append_nil]

end Ports

/-- **The declarations of a header are declared in order.** -/
theorem foldl_items (name : String) {groups : List PortGroup}
    (wellFormed : ∀ group ∈ groups, group.IsWellFormed) (line : Nat) {ports : List Port}
    {signals : List Signal} {declared : List String}
    (inPorts : ports.map Port.name ⊆ declared) (inSignals : signals.map Signal.name ⊆ declared)
    (fresh : (declared ++ groups.flatMap PortGroup.names).Nodup) :
    (Header.items line groups).foldl addItem
        { name := name, ports := ports, signals := signals } =
      { name := name
        ports := ports ++ (groups.zipIdx line).flatMap fun (group, line) => group.ports line
        signals := signals ++
          (groups.zipIdx line).flatMap fun (group, line) => group.regs line } := by
  induction groups generalizing line ports signals declared with
  | nil =>
      simp only [Header.items, List.foldl_nil, List.zipIdx_nil, List.flatMap_nil, List.append_nil]
  | cons group groups ih =>
      obtain ⟨first, others⟩ := List.forall_mem_cons.mp wellFormed
      have width (module : Module) : module.widthOfRange (rangeWords group.range) = group.width :=
        module.widthOfRange_rangeWords first.bounds
      rw [List.flatMap_cons, ← List.append_assoc] at fresh
      have kept : declared ⊆ declared ++ group.names := List.subset_append_left _ _
      have added : group.names ⊆ declared ++ group.names := List.subset_append_right _ _
      have portNames : (ports ++ group.ports line).map Port.name ⊆ declared ++ group.names := by
        rw [List.map_append, group.names_ports]
        exact List.append_subset.mpr ⟨List.Subset.trans inPorts kept, added⟩
      have signalNames : (signals ++ group.regs line).map Signal.name ⊆
          declared ++ group.names := by
        rw [List.map_append]
        exact List.append_subset.mpr ⟨List.Subset.trans inSignals kept,
          List.Subset.trans (group.names_regs line) added⟩
      have there := ih others (line + 1) portNames signalNames fresh
      rw [List.append_assoc, List.append_assoc] at there
      rw [Header.items, List.foldl_cons, PortGroup.item, addItem, width,
        foldl_addPort _ _ _ _ line inPorts inSignals (List.nodup_append.mp fresh).1,
        List.zipIdx_cons, List.flatMap_cons, List.flatMap_cons]
      exact there

end Module

namespace Header

/-- **A header is read as a module with its ports.** -/
theorem ofSource?_text {header : Header} (wellFormed : header.IsWellFormed) :
    Module.ofSource? header.text =
      some { name := header.name, ports := header.ports, signals := header.regs } := by
  have fresh : ([] ++ header.groups.flatMap PortGroup.names).Nodup := wellFormed.distinct
  have noPorts : ([] : List Port).map Port.name ⊆ [] := List.Subset.refl []
  have noSignals : ([] : List Signal).map Signal.name ⊆ [] := List.Subset.refl []
  have declared :=
    Module.foldl_items header.name wellFormed.groups 2 noPorts noSignals fresh
  rw [Module.ofSource?, text, Token.filter_scan_spelled header.toList_lines wellFormed.written,
    Module.ofTokens?, readModule?_parts wellFormed]
  exact congrArg some declared

/-- **The module and the report of a header agree.** Both have its name, its ports with the
width of their range and the line of their group, and the variables among them; the module has
nothing else, and the report has no errors and no warnings. -/
theorem readers_agree {header : Header} (wellFormed : header.IsWellFormed) :
    Module.ofSource? header.text =
        some { name := header.name, ports := header.ports, signals := header.regs } ∧
      Lint.Report.ofSource header.text =
        { name := header.name, ports := header.ports, signals := header.regs, errors := []
          warnings := [] } :=
  ⟨ofSource?_text wellFormed, report_text wellFormed⟩

/-- Two groups, of which the second has a range. -/
theorem readers_agree_counter : ∃ header : Header,
    header.text = "module counter(\ninput clk, rst,\noutput reg signed [7:0] q\n);\nendmodule\n" ∧
    Module.ofSource? header.text = some
      { name := "counter"
        ports := [⟨"clk", .input, 1, false, 2⟩, ⟨"rst", .input, 1, false, 2⟩,
          ⟨"q", .output, 8, true, 3⟩]
        signals := [⟨"q", .reg, 8, true, none, 3⟩] } ∧
    Lint.Report.ofSource header.text =
      { name := "counter"
        ports := [⟨"clk", .input, 1, false, 2⟩, ⟨"rst", .input, 1, false, 2⟩,
          ⟨"q", .output, 8, true, 3⟩]
        signals := [⟨"q", .reg, 8, true, none, 3⟩] } := by
  have clocked : PortGroup.IsWellFormed ⟨.input, false, false, none, ["clk", "rst"]⟩ :=
    ⟨by decide, by decide, fun high low bounds => nomatch bounds⟩
  have counted : PortGroup.IsWellFormed ⟨.output, true, true, some (7, 0), ["q"]⟩ := by
    refine ⟨by decide, by decide, fun high low bounds => ?_⟩
    cases bounds
    decide
  have wellFormed : IsWellFormed ⟨"counter", [⟨.input, false, false, none, ["clk", "rst"]⟩,
      ⟨.output, true, true, some (7, 0), ["q"]⟩]⟩ :=
    ⟨by decide, List.forall_mem_cons.mpr ⟨clocked, List.forall_mem_singleton.mpr counted⟩,
      by decide⟩
  exact ⟨_, by decide, readers_agree wellFormed⟩

end Header

end MiniVerilog
