import MiniVerilog.Proofs.Module.Constants
import MiniVerilog.Proofs.Module.Enclosed
import MiniVerilog.Proofs.Source.Declared

/-! # The declarations that a module keeps

A name may be declared again as a port, and again as a signal. A module keeps the last declaration
of each, at the place of the first one (`MiniVerilog.Module.ofSource?_keepsDeclarations`).
-/

namespace MiniVerilog

/-- Puts declarations one after another into a list. -/
def declareAll {α : Type} (nameOf : α → String) (declared entries : List α) : List α :=
  declared.foldl (fun entries entry => declare nameOf entry entries) entries

/-- The entries are the last declarations of their names, in the order of the first ones. -/
structure KeepsLast {α : Type} (nameOf : α → String) (declared entries : List α) : Prop where
  distinct : (entries.map nameOf).Nodup
  names : entries.map nameOf = (declared.map nameOf).eraseDups
  last : ∀ entry ∈ entries, ∃ before after, declared = before ++ entry :: after ∧
    ∀ later ∈ after, nameOf later ≠ nameOf entry

/-- What is declared stands among the entries, and the others have other names. -/
theorem eq_or_of_mem_declare {α : Type} {nameOf : α → String} {entry other : α} {entries : List α}
    (distinct : (entries.map nameOf).Nodup) (member : other ∈ declare nameOf entry entries) :
    other = entry ∨ other ∈ entries ∧ nameOf other ≠ nameOf entry := by
  induction entries with
  | nil => exact .inl (List.mem_singleton.mp member)
  | cons first entries ih =>
      obtain ⟨fresh, others⟩ := List.nodup_cons.mp distinct
      rw [declare] at member
      split at member
      · rename_i same
        rcases List.mem_cons.mp member with here | later
        · exact .inl here
        · refine .inr ⟨List.mem_cons_of_mem _ later, fun again => fresh ?_⟩
          rw [same, ← again]
          exact List.mem_map_of_mem later
      · rename_i differs
        rcases List.mem_cons.mp member with rfl | later
        · exact .inr ⟨List.mem_cons_self, differs⟩
        · rcases ih others later with here | ⟨inside, name⟩
          · exact .inl here
          · exact .inr ⟨List.mem_cons_of_mem _ inside, name⟩

/-- **Declaring one more entry keeps the last ones of their names** in the order of the first
ones. -/
theorem KeepsLast.declare {α : Type} {nameOf : α → String} {declared entries : List α}
    (keeps : KeepsLast nameOf declared entries) (entry : α) :
    KeepsLast nameOf (declared ++ [entry]) (MiniVerilog.declare nameOf entry entries) := by
  refine ⟨nodup_declare keeps.distinct entry, ?_, fun other member => ?_⟩
  · have same : nameOf entry ∈ entries.map nameOf ↔ nameOf entry ∈ declared.map nameOf := by
      rw [keeps.names, List.mem_eraseDups]
    rw [List.map_append, List.map_singleton, eraseDups_concat, ← keeps.names]
    by_cases known : nameOf entry ∈ entries.map nameOf
    · rw [map_declare_of_mem known, if_pos (same.mp known), List.append_nil]
    · rw [declare_of_not_mem known, if_neg (mt same.mpr known), List.map_append,
        List.map_singleton]
  · rcases eq_or_of_mem_declare keeps.distinct member with rfl | ⟨inside, name⟩
    · exact ⟨declared, [], rfl, List.forall_mem_nil _⟩
    · obtain ⟨before, after, rfl, fresh⟩ := keeps.last other inside
      refine ⟨before, after ++ [entry], List.append_assoc _ _ _, ?_⟩
      exact List.forall_mem_append.mpr ⟨fresh, List.forall_mem_singleton.mpr (Ne.symm name)⟩

/-- **The last declaration of each name stays**, at the place of the first one. -/
theorem keepsLast_declareAll {α : Type} (nameOf : α → String) (declared : List α) :
    KeepsLast nameOf declared (declareAll nameOf declared []) := by
  induction declared using List.reverseRecOn with
  | nil => exact ⟨List.nodup_nil, rfl, List.forall_mem_nil _⟩
  | append_singleton declared entry ih =>
      rw [declareAll, List.foldl_concat]
      exact ih.declare entry

namespace Module

/-- The ports that an item declares in a module. -/
def declaredPorts (module : Module) : Source.Item → List Port
  | .ports direction _ signed range names => names.map fun declarator =>
    ⟨declarator.name, direction, module.widthOfRange range, signed, declarator.line⟩
  | _ => []

/-- The signals that an item declares in a module: its own ones, or variables for its ports. -/
def declaredSignals (module : Module) : Source.Item → List Signal
  | .ports _ isReg signed range names =>
    if isReg then names.map fun declarator =>
      ⟨declarator.name, .reg, module.widthOfRange range, signed, none, declarator.line⟩
    else []
  | .signals kind signed range names => names.map fun declarator =>
    ⟨declarator.name, kind, module.widthOfRange range, signed,
      if kind = .reg then declarator.initial.bind module.fold else none, declarator.line⟩
  | _ => []

/-- What items declare in order, each of them in the module of the items before it. -/
def declarations {α : Type} (declared : Module → Source.Item → List α) (module : Module) :
    List Source.Item → List α
  | [] => []
  | item :: items => declared module item ++ declarations declared (module.addItem item) items

/-- A part of a module is declared if every item puts what it declares into it. -/
theorem part_foldl_addItem {α : Type} {nameOf : α → String} (part : Module → List α)
    {declared : Module → Source.Item → List α}
    (one : ∀ module item, part (module.addItem item) =
      declareAll nameOf (declared module item) (part module))
    (items : List Source.Item) (module : Module) :
    part (items.foldl addItem module) =
      declareAll nameOf (declarations declared module items) (part module) := by
  induction items generalizing module with
  | nil => rfl
  | cons item items ih =>
      rw [List.foldl_cons, ih, one, declareAll, declareAll, declareAll, declarations,
        List.foldl_append]

/-- What is declared name by name, all under the same parameters. -/
theorem part_foldl {α : Type} {nameOf : α → String} (part : Module → List α)
    {add : Module → Source.Declarator → Module} {module : Module}
    {declared : Source.Declarator → α}
    (keeps : ∀ before declarator, (add before declarator).parameters = before.parameters)
    (one : ∀ before declarator, before.parameters = module.parameters →
      part (add before declarator) = declare nameOf (declared declarator) (part before))
    (names : List Source.Declarator) :
    part (names.foldl add module) = declareAll nameOf (names.map declared) (part module) := by
  have all (names : List Source.Declarator) (before : Module)
      (same : before.parameters = module.parameters) :
      part (names.foldl add before) = declareAll nameOf (names.map declared) (part before) := by
    induction names generalizing before with
    | nil => rfl
    | cons declarator names ih =>
        rw [List.foldl_cons, ih _ ((keeps before declarator).trans same),
          one before declarator same]
        rfl
  exact all names module rfl

/-- An item puts the ports that it declares into the list of ports. -/
theorem ports_addItem (module : Module) (item : Source.Item) :
    (module.addItem item).ports =
      declareAll Port.name (module.declaredPorts item) module.ports := by
  cases item with
  | ports direction isReg signed range names =>
      refine part_foldl ports (parameters_addPort direction isReg signed _)
        (fun before declarator _ => ?_) names
      unfold addPort
      simp only
      split <;> rfl
  | signals kind signed range names =>
      exact foldl_keeps ports (addSignal kind signed _) (fun _ _ _ => rfl) module
  | parameters isLocal names =>
      exact foldl_keeps ports (addParameter isLocal) (fun _ _ _ => rfl) module
  | assign | always | instanceOf => rfl

/-- Constants depend on the parameters only. -/
theorem fold_congr {first second : Module} (same : first.parameters = second.parameters) :
    first.fold = second.fold := by
  funext words
  rw [fold, fold, show first.constant? = second.constant? by
    funext name
    rw [constant?, constant?, same]]

/-- An item puts the signals that it declares into the list of signals. A declaration of ports gives
variables, which see the parameters of the module before it. -/
theorem signals_addItem (module : Module) (item : Source.Item) :
    (module.addItem item).signals =
      declareAll Signal.name (module.declaredSignals item) module.signals := by
  cases item with
  | ports direction isReg signed range names =>
      cases isReg with
      | true =>
          exact part_foldl signals (parameters_addPort direction true signed _)
            (fun before declarator _ => rfl) names
      | false =>
          exact foldl_keeps signals (addPort direction false signed _) (fun _ _ _ => rfl) module
  | signals kind signed range names =>
      refine part_foldl signals (parameters_addSignal kind signed _)
        (fun before declarator same => ?_) names
      rw [← fold_congr same]
      cases kind <;> rfl
  | parameters isLocal names =>
      exact foldl_keeps signals (addParameter isLocal) (fun _ _ _ => rfl) module
  | assign | always | instanceOf => rfl

/-- What declares names of items one by one declares them where they stand. -/
theorem declarations_sublist {α : Type} {placeOf : α → String × Nat}
    {declared : Module → Source.Item → List α}
    (one : ∀ module item, ((declared module item).map placeOf).Sublist
      (item.declared.map Source.Declarator.place)) (items : List Source.Item) (module : Module) :
    ((declarations declared module items).map placeOf).Sublist
      ((items.flatMap Source.Item.declared).map Source.Declarator.place) := by
  induction items generalizing module with
  | nil => exact List.Sublist.refl _
  | cons item items ih =>
      rw [declarations, List.map_append, List.flatMap_cons, List.map_append]
      exact (one module item).append (ih _)

/-- The ports of an item have the names and lines of what it declares, in order. -/
theorem declaredPorts_sublist (module : Module) (item : Source.Item) :
    ((module.declaredPorts item).map fun port => (port.name, port.line)).Sublist
      (item.declared.map Source.Declarator.place) := by
  cases item with
  | ports direction isReg signed range names =>
      rw [declaredPorts, List.map_map]
      exact List.Sublist.refl _
  | _ => exact List.nil_sublist _

/-- The signals of an item have the names and lines of what it declares, in order. -/
theorem declaredSignals_sublist (module : Module) (item : Source.Item) :
    ((module.declaredSignals item).map fun signal => (signal.name, signal.line)).Sublist
      (item.declared.map Source.Declarator.place) := by
  cases item with
  | ports direction isReg signed range names =>
      cases isReg with
      | true =>
          rw [declaredSignals, if_pos rfl, List.map_map]
          exact List.Sublist.refl _
      | false => exact List.nil_sublist _
  | signals kind signed range names =>
      rw [declaredSignals, List.map_map]
      exact List.Sublist.refl _
  | _ => exact List.nil_sublist _

/-- A module keeps what items declare: the last port and the last signal of each name, at the place
of the first one. Names and widths are not empty, and the declarations stand in the order of
identifiers among the tokens. -/
structure KeepsDeclarations (tokens : List Token) (items : List Source.Item) (module : Module) :
    Prop where
  ports : KeepsLast Port.name (declarations declaredPorts { name := module.name } items)
    module.ports
  signals : KeepsLast Signal.name (declarations declaredSignals { name := module.name } items)
    module.signals
  wellFormedPorts : ∀ port ∈ module.ports, port.name ≠ "" ∧ 1 ≤ port.width
  wellFormedSignals : ∀ signal ∈ module.signals, signal.name ≠ "" ∧ 1 ≤ signal.width
  portsStand : ((declarations declaredPorts { name := module.name } items).map fun port =>
    (port.name, port.line)).Sublist (Source.namePlaces tokens)
  signalsStand : ((declarations declaredSignals { name := module.name } items).map fun signal =>
    (signal.name, signal.line)).Sublist (Source.namePlaces tokens)

theorem widthsPositive_ofItems (name : String) (items : List Source.Item) :
    (ofItems name items).WidthsPositive :=
  List.foldlRecOn items addItem ⟨List.forall_mem_nil _, List.forall_mem_nil _⟩
    fun _ positive item _ => positive.addItem item

/-- **A module keeps the last declaration of each port and signal**, at the place of the first
one. -/
theorem ofSource?_keepsDeclarations {source : String} {module : Module}
    (parsed : ofSource? source = some module) :
    ∃ items, Source.readModule? (codeOf source) = some (module.name, items) ∧
      module.KeepsDeclarations (codeOf source) items := by
  have named {name : String} (own : name ∈ module.ownNames) : name ≠ "" :=
    DeclaresOrAssigns.ne_empty parsed (.inl own)
  obtain ⟨name, items, rfl, read⟩ := exists_items_of_ofSource? parsed
  have positive := widthsPositive_ofItems name items
  have stand := Source.readModule?_places read
  rw [← name_ofItems name items] at read
  refine ⟨items, read, ?_, ?_, ?_, ?_, ?_, ?_⟩
  · rw [name_ofItems, ofItems, part_foldl_addItem Module.ports ports_addItem]
    exact keepsLast_declareAll _ _
  · rw [name_ofItems, ofItems, part_foldl_addItem Module.signals signals_addItem]
    exact keepsLast_declareAll _ _
  · exact fun port member => ⟨named (mem_ownNames.mpr (.inl (List.mem_map_of_mem member))),
      positive.ports port member⟩
  · exact fun signal member => ⟨named (mem_ownNames.mpr (.inr (.inl (List.mem_map_of_mem member)))),
      positive.signals signal member⟩
  · exact (declarations_sublist declaredPorts_sublist items _).trans stand
  · exact (declarations_sublist declaredSignals_sublist items _).trans stand

/-- A port and two signals that are declared again, with other directions, kinds, ranges and
values, and a parameter that has another value by then. -/
theorem ofSource?_keepsDeclarations_again :
    let source := "module m #(parameter W = 3)(input [W:0] a, b, output reg q);\n" ++
      "parameter W = 1; output [W:0] a;\nreg signed [7:0] r = 5, q = W, 7;\nwire r\nendmodule"
    ∃ module, ofSource? source = some module ∧
      module.ports = [⟨"a", .output, 2, false, 2⟩, ⟨"b", .input, 4, false, 1⟩,
        ⟨"q", .output, 1, false, 1⟩] ∧
      module.signals = [⟨"q", .reg, 8, true, some 1, 3⟩, ⟨"r", .wire, 1, false, none, 4⟩] ∧
      ∃ items, Source.readModule? (codeOf source) = some (module.name, items) ∧
        module.KeepsDeclarations (codeOf source) items := by
  intro source
  let module : Module :=
    { name := "m"
      ports := [⟨"a", .output, 2, false, 2⟩, ⟨"b", .input, 4, false, 1⟩,
        ⟨"q", .output, 1, false, 1⟩]
      signals := [⟨"q", .reg, 8, true, some 1, 3⟩, ⟨"r", .wire, 1, false, none, 4⟩]
      parameters := [⟨"W", 3, false, 1⟩, ⟨"W", 1, false, 2⟩] }
  have parsed : ofSource? source = some module := by decide +kernel
  exact ⟨module, parsed, rfl, rfl, ofSource?_keepsDeclarations parsed⟩

end Module

end MiniVerilog
