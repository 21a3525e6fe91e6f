import MiniVerilog.Proofs.Module.Names
import MiniVerilog.Proofs.Token.Lexeme

/-! # What a module that was read declares

A declaration has at least one bit (`MiniVerilog.Module.widthOf?_pos`), and the names a
simulation keeps are all names that are declared or assigned, of which none is empty
(`MiniVerilog.Module.mem_trackedNames_iff`).
-/

namespace MiniVerilog

/-- Declaring an entry adds no other one. -/
theorem mem_declare {α : Type} {nameOf : α → String} {entry other : α} {entries : List α}
    (member : other ∈ declare nameOf entry entries) : other = entry ∨ other ∈ entries := by
  induction entries with
  | nil => exact .inl (List.mem_singleton.mp member)
  | cons first rest ih =>
      unfold declare at member
      split at member
      · exact (List.mem_cons.mp member).imp_right (List.mem_cons_of_mem _)
      · rcases List.mem_cons.mp member with here | there
        · exact .inr (here ▸ List.mem_cons_self)
        · exact (ih there).imp_right (List.mem_cons_of_mem _)

theorem Value.rangeWidth_pos (high low : Value) : 0 < Value.rangeWidth high low :=
  Nat.lt_min.mpr ⟨Nat.succ_pos _, by decide⟩

namespace Module

/-- Every port and every signal has at least one bit. -/
structure WidthsPositive (module : Module) : Prop where
  ports : ∀ port ∈ module.ports, 0 < port.width
  signals : ∀ signal ∈ module.signals, 0 < signal.width

section WidthsPositive

variable {module : Module}

/-- Every range has a bit at least, and so has a declaration without one. -/
theorem widthOfRange_pos (module : Module) (range : Option Source.Range) :
    0 < module.widthOfRange range := by
  cases range with
  | none => exact Nat.one_pos
  | some range =>
      unfold widthOfRange
      simp only
      split
      · exact Value.rangeWidth_pos _ _
      · exact Nat.one_pos

/-- Declaring a port with a bit keeps all widths positive. -/
theorem WidthsPositive.declarePort (positive : module.WidthsPositive) {port : Port}
    (width : 0 < port.width) : (module.declarePort port).WidthsPositive := by
  refine ⟨fun other member => ?_, positive.signals⟩
  rcases mem_declare member with rfl | old
  · exact width
  · exact positive.ports other old

/-- Declaring a signal with a bit keeps all widths positive. -/
theorem WidthsPositive.declareSignal (positive : module.WidthsPositive) {signal : Signal}
    (width : 0 < signal.width) : (module.declareSignal signal).WidthsPositive := by
  refine ⟨positive.ports, fun other member => ?_⟩
  rcases mem_declare member with rfl | old
  · exact width
  · exact positive.signals other old

/-- **Every item keeps all widths positive.** -/
theorem WidthsPositive.addItem (positive : module.WidthsPositive) (item : Source.Item) :
    (module.addItem item).WidthsPositive := by
  cases item with
  | ports direction isReg signed range names =>
      refine List.foldlRecOn names _ positive fun before positive declarator _ => ?_
      unfold addPort
      simp only
      split
      · exact (positive.declarePort (widthOfRange_pos _ range)).declareSignal
          (widthOfRange_pos _ range)
      · exact positive.declarePort (widthOfRange_pos _ range)
  | signals kind signed range names =>
      refine List.foldlRecOn names _ positive fun before positive declarator _ => ?_
      unfold addSignal
      apply WidthsPositive.declareSignal
      · exact ⟨positive.ports, positive.signals⟩
      · exact widthOfRange_pos _ range
  | parameters isLocal names =>
      refine List.foldlRecOn names _ positive fun before positive declarator _ => ?_
      exact ⟨positive.ports, positive.signals⟩
  | assign | always | instanceOf => exact ⟨positive.ports, positive.signals⟩

end WidthsPositive

/-- **A declared name of a module that was read has at least one bit.** -/
theorem widthOf?_pos {source : String} {module : Module} (parsed : ofSource? source = some module)
    {name : String} {width : Nat} (declared : module.widthOf? name = some width) : 0 < width := by
  obtain ⟨moduleName, items, rfl, -⟩ := exists_items_of_ofSource? parsed
  have positive : (ofItems moduleName items).WidthsPositive :=
    List.foldlRecOn items addItem ⟨List.forall_mem_nil _, List.forall_mem_nil _⟩
      fun before positive item _ => positive.addItem item
  unfold widthOf? at declared
  rcases Option.or_eq_some_iff.mp declared with inSignals | ⟨-, inPorts⟩
  · obtain ⟨signal, found, rfl⟩ := Option.map_eq_some_iff.mp inSignals
    exact positive.signals signal (List.mem_of_find?_eq_some found)
  · obtain ⟨port, found, rfl⟩ := Option.map_eq_some_iff.mp inPorts
    exact positive.ports port (List.mem_of_find?_eq_some found)

/-- The module declares the name, or assigns it outside or anywhere inside its always
blocks. -/
def DeclaresOrAssigns (module : Module) (name : String) : Prop :=
  name ∈ module.ownNames ∨
    ∃ block ∈ module.alwaysBlocks, name ∈ StatementTree.targetsOfBody (module.trees block.body)

/-- The tracked names are the names that a module declares or assigns, but for the empty
name. -/
theorem mem_trackedNames_iff_ne {module : Module} {name : String} :
    name ∈ module.trackedNames ↔ module.DeclaresOrAssigns name ∧ name ≠ "" := by
  have blocks : name ∈ (module.alwaysBlocks.flatMap fun block =>
      module.assignedTargets block.body) ↔ ∃ block ∈ module.alwaysBlocks,
        name ∈ StatementTree.targetsOfBody (module.trees block.body) := by
    simp only [List.mem_flatMap, mem_assignedTargets]
  unfold trackedNames DeclaresOrAssigns ownNames
  simp only [List.mem_filter, List.mem_append, blocks, bne_iff_ne, or_assoc]

/-- A name that was read is not empty. -/
theorem DeclaresOrAssigns.ne_empty {source : String} {module : Module}
    (parsed : ofSource? source = some module) {name : String}
    (known : module.DeclaresOrAssigns name) : name ≠ "" := by
  rcases known with own | ⟨block, member, assigned⟩
  · obtain ⟨token, scanned, identifier, rfl⟩ := exists_token_of_mem_ownNames parsed own
    exact (Token.isWord_of_mem_scan scanned identifier).1
  · obtain ⟨token, scanned, target, rfl⟩ := exists_token_of_mem_targets parsed member assigned
    exact (Token.isWord_of_mem_scan scanned (Bool.and_eq_true_iff.mp target).1).1

/-- **A simulation keeps all names that the module declares or assigns.** -/
theorem mem_trackedNames_iff {source : String} {module : Module}
    (parsed : ofSource? source = some module) {name : String} :
    name ∈ module.trackedNames ↔ module.DeclaresOrAssigns name := by
  rw [mem_trackedNames_iff_ne]
  exact ⟨And.left, fun known => ⟨known, known.ne_empty parsed⟩⟩

end Module

end MiniVerilog
