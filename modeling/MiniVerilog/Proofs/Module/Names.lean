import Mathlib.Data.List.Nodup
import MiniVerilog.Proofs.Module.Bodies
import MiniVerilog.Proofs.Source.Names
import MiniVerilog.Simulation.State

/-! # The names of a module that was read

A module declares and assigns only names of its source text
(`MiniVerilog.Module.exists_token_of_mem_trackedNames`), and its always blocks assign no
word that opens a case statement (`MiniVerilog.Module.exists_token_of_mem_targets`).
-/

namespace MiniVerilog

/-- Declaring an entry adds its name at most. -/
theorem declare_names {α : Type} (nameOf : α → String) (entry : α) (entries : List α) :
    (declare nameOf entry entries).map nameOf ⊆ entries.map nameOf ++ [nameOf entry] := by
  induction entries with
  | nil => exact List.Subset.refl _
  | cons first rest ih =>
      unfold declare
      split
      · rename_i same
        rw [List.map_cons, List.map_cons, same]
        exact List.subset_append_left _ _
      · rw [List.map_cons, List.map_cons, List.cons_append]
        exact List.cons_subset_cons _ ih

/-- A last name is kept if it is new. -/
theorem eraseDups_concat (names : List String) (name : String) :
    (names ++ [name]).eraseDups = names.eraseDups ++ if name ∈ names then [] else [name] := by
  rw [List.eraseDups_append]
  by_cases known : name ∈ names
  · simp [List.removeAll, known]
  · simp [List.removeAll, known, List.eraseDups_cons]

/-- Without repetitions every name stands once. -/
theorem nodup_eraseDups (names : List String) : names.eraseDups.Nodup := by
  induction names using List.reverseRecOn with
  | nil => exact List.nodup_nil
  | append_singleton names name ih =>
      rw [eraseDups_concat]
      split
      · rwa [List.append_nil]
      · rename_i fresh
        rw [← List.concat_eq_append]
        exact ih.concat (mt List.mem_eraseDups.mp fresh)

/-- Adding each name that is not there yet keeps the first of those that are equal. -/
theorem foldl_distinct_eq_eraseDups (names : List String) :
    names.foldl (fun names name => if name ∈ names then names else names ++ [name]) [] =
      names.eraseDups := by
  induction names using List.reverseRecOn with
  | nil => rfl
  | append_singleton names name ih =>
      rw [List.foldl_append, ih, eraseDups_concat, List.foldl_cons, List.foldl_nil]
      by_cases known : name ∈ names
      · rw [if_pos known, if_pos (List.mem_eraseDups.mpr known), List.append_nil]
      · rw [if_neg known, if_neg (mt List.mem_eraseDups.mp known)]

namespace Module

/-- What each declaration leaves as it is, a list of declarations leaves as it is. -/
theorem foldl_keeps {α : Type} (part : Module → α) (add : Module → Source.Declarator → Module)
    {names : List Source.Declarator}
    (each : ∀ before, ∀ declarator ∈ names, part (add before declarator) = part before)
    (module : Module) : part (names.foldl add module) = part module :=
  List.foldlRecOn (motive := fun after => part after = part module) names add rfl
    fun before same declarator member => (each before declarator member).trans same

/-- The names a module declares or assigns outside its always blocks. -/
def ownNames (module : Module) : List String :=
  module.ports.map (·.name) ++ module.signals.map (·.name) ++ module.assigns.map (·.target)

/-- The module has no names but those of another one and these. -/
def AddsOnly (names : List String) (first second : Module) : Prop :=
  ∀ name ∈ second.ownNames, name ∈ first.ownNames ∨ name ∈ names

/-- If every declared name adds itself at most, all of them together add their names at most. -/
theorem addsOnly_foldl {add : Module → Source.Declarator → Module}
    (one : ∀ module declarator, AddsOnly [declarator.name] module (add module declarator))
    (names : List Source.Declarator) (module : Module) :
    AddsOnly (names.map Source.Declarator.name) module (names.foldl add module) := by
  induction names generalizing module with
  | nil => exact fun name member => .inl member
  | cons declarator names ih =>
      intro name member
      rcases ih (add module declarator) name member with before | later
      · rcases one module declarator name before with old | new
        · exact .inl old
        · exact .inr (List.mem_cons.mpr (.inl (List.mem_singleton.mp new)))
      · exact .inr (List.mem_cons_of_mem _ later)

theorem mem_ownNames {module : Module} {name : String} :
    name ∈ module.ownNames ↔ name ∈ module.ports.map (·.name) ∨
      name ∈ module.signals.map (·.name) ∨ name ∈ module.assigns.map (·.target) := by
  rw [ownNames, List.mem_append, List.mem_append, or_assoc]

/-- Declaring a port adds its name at most. -/
theorem addsOnly_declarePort (module : Module) (port : Port) :
    AddsOnly [port.name] module (module.declarePort port) := by
  intro name member
  rw [mem_ownNames] at member ⊢
  rcases member with inPorts | others
  · rcases List.mem_append.mp (declare_names Port.name port module.ports inPorts) with old | new
    · exact .inl (.inl old)
    · exact .inr new
  · exact .inl (.inr others)

/-- Declaring a signal adds its name at most. -/
theorem addsOnly_declareSignal (module : Module) (signal : Signal) :
    AddsOnly [signal.name] module (module.declareSignal signal) := by
  intro name member
  rw [mem_ownNames] at member ⊢
  rcases member with inPorts | inSignals | inAssigns
  · exact .inl (.inl inPorts)
  · rcases List.mem_append.mp (declare_names Signal.name signal module.signals inSignals) with
      old | new
    · exact .inl (.inr (.inl old))
    · exact .inr new
  · exact .inl (.inr (.inr inAssigns))

/-- Adding a port, and a variable for it, adds its name at most. -/
theorem addsOnly_addPort (direction : Direction) (isReg signed : Bool) (width : Nat)
    (module : Module) (declarator : Source.Declarator) :
    AddsOnly [declarator.name] module (addPort direction isReg signed width module declarator) := by
  intro name member
  unfold addPort at member
  simp only at member
  split at member
  · rcases addsOnly_declareSignal _ _ name member with before | new
    · exact addsOnly_declarePort _ _ name before
    · exact .inr new
  · exact addsOnly_declarePort _ _ name member

/-- Adding a signal with its initial value adds its name at most. -/
theorem addsOnly_addSignal (kind : SignalKind) (signed : Bool) (width : Nat) (module : Module)
    (declarator : Source.Declarator) :
    AddsOnly [declarator.name] module (addSignal kind signed width module declarator) := by
  intro name member
  unfold addSignal at member
  rcases addsOnly_declareSignal _ _ name member with before | new
  · rw [mem_ownNames] at before
    rcases before with inPorts | inSignals | inAssigns
    · exact .inl (mem_ownNames.mpr (.inl inPorts))
    · exact .inl (mem_ownNames.mpr (.inr (.inl inSignals)))
    · rw [List.map_append, List.mem_append] at inAssigns
      rcases inAssigns with old | new
      · exact .inl (mem_ownNames.mpr (.inr (.inr old)))
      · right
        split at new
        · exact new
        · cases new
  · exact .inr new

/-- **An item adds the names that it declares or assigns at most.** -/
theorem addsOnly_addItem (module : Module) (item : Source.Item) :
    AddsOnly item.names module (addItem module item) := by
  cases item with
  | ports direction isReg signed range names =>
      exact addsOnly_foldl (addsOnly_addPort direction isReg signed _) names module
  | signals kind signed range names =>
      exact addsOnly_foldl (addsOnly_addSignal kind signed _) names module
  | parameters isLocal names =>
      have unchanged : (addItem module (.parameters isLocal names)).ownNames = module.ownNames :=
        foldl_keeps ownNames (addParameter isLocal) (fun _ _ _ => rfl) module
      exact fun name member => .inl (unchanged ▸ member)
  | assign target expression line =>
      intro name member
      rw [mem_ownNames] at member ⊢
      rcases member with inPorts | inSignals | inAssigns
      · exact .inl (.inl inPorts)
      · exact .inl (.inr (.inl inSignals))
      · unfold addItem at inAssigns
        rw [List.map_append, List.mem_append] at inAssigns
        rcases inAssigns with old | new
        · exact .inl (.inr (.inr old))
        · exact .inr new
  | always => exact fun name member => .inl member
  | instanceOf => exact fun name member => .inl member

/-- **A module has no names but those of its items.** -/
theorem ownNames_ofItems (moduleName : String) (items : List Source.Item) :
    (ofItems moduleName items).ownNames ⊆ items.flatMap Source.Item.names := by
  have all (items : List Source.Item) (module : Module) :
      AddsOnly (items.flatMap Source.Item.names) module (items.foldl addItem module) := by
    induction items generalizing module with
    | nil => exact fun name member => .inl member
    | cons item items ih =>
        intro name member
        rw [List.flatMap_cons, List.mem_append]
        rcases ih (addItem module item) name member with before | later
        · rcases addsOnly_addItem module item name before with old | new
          · exact .inl old
          · exact .inr (.inl new)
        · exact .inr (.inr later)
  intro name member
  rcases all items { name := moduleName } name member with none | named
  · cases none
  · exact named

/-- A module that was read is made of items that were read. -/
theorem exists_items_of_ofSource? {source : String} {module : Module}
    (parsed : ofSource? source = some module) :
    ∃ name items, module = ofItems name items ∧
      Source.readModule? ((Token.scan source).filter fun token => token.kind != .comment) =
        some (name, items) := by
  obtain ⟨⟨name, items⟩, read, same⟩ := Option.map_eq_some_iff.mp parsed
  exact ⟨name, items, same.symm, read⟩

/-- The texts of the tokens of the code are texts of tokens that the lexer found. -/
theorem mem_scan_of_mem_textsOf {source : String} {property : Token → Bool} {name : String}
    (member : name ∈ Source.textsOf property
      ((Token.scan source).filter fun token => token.kind != .comment)) :
    ∃ token ∈ Token.scan source, property token = true ∧ token.text = name := by
  obtain ⟨token, picked, same⟩ := List.mem_map.mp member
  obtain ⟨inside, isName⟩ := List.mem_filter.mp picked
  exact ⟨token, (List.mem_filter.mp inside).1, isName, same⟩

/-- **The names that an always block assigns are names of the source.** -/
theorem exists_token_of_mem_targets {source : String} {module : Module} {block : AlwaysBlock}
    (parsed : ofSource? source = some module) (member : block ∈ module.alwaysBlocks)
    {target : String} (assigned : target ∈ StatementTree.targetsOfBody (module.trees block.body)) :
    ∃ token ∈ Token.scan source, Source.isTarget token = true ∧ token.text = target := by
  obtain ⟨name, items, rfl, read⟩ := exists_items_of_ofSource? parsed
  apply mem_scan_of_mem_textsOf
  apply (Source.readModule?_names read).2
  have trees : (ofItems name items).trees block.body ∈
      (items.filterMap Source.Item.body?).map Source.treesOfBody := by
    rw [← trees_ofItems]
    exact List.mem_map.mpr ⟨block, member, rfl⟩
  obtain ⟨body, found, same⟩ := List.mem_map.mp trees
  obtain ⟨item, inItems, itemBody⟩ := List.mem_filterMap.mp found
  refine List.mem_flatMap.mpr ⟨item, inItems, ?_⟩
  rw [← same] at assigned
  cases item with
  | always =>
      cases itemBody
      exact assigned
  | _ => cases itemBody

theorem assignedTargets_eq_eraseDups (module : Module) (body : List Nat) :
    module.assignedTargets body =
      (StatementTree.targetsOfBody (module.trees body)).eraseDups :=
  foldl_distinct_eq_eraseDups _

theorem mem_assignedTargets {module : Module} {body : List Nat} {name : String} :
    name ∈ module.assignedTargets body ↔
      name ∈ StatementTree.targetsOfBody (module.trees body) := by
  rw [assignedTargets_eq_eraseDups, List.mem_eraseDups]

/-- The names that a module declares or assigns outside its always blocks are names of the
source. -/
theorem exists_token_of_mem_ownNames {source : String} {module : Module}
    (parsed : ofSource? source = some module) {name : String} (own : name ∈ module.ownNames) :
    ∃ token ∈ Token.scan source, token.isIdentifier = true ∧ token.text = name := by
  obtain ⟨moduleName, items, rfl, read⟩ := exists_items_of_ofSource? parsed
  exact mem_scan_of_mem_textsOf
    ((Source.readModule?_names read).1 (ownNames_ofItems moduleName items own))

/-- **The names of a module are names of its source.** -/
theorem exists_token_of_mem_trackedNames {source : String} {module : Module}
    (parsed : ofSource? source = some module) {name : String}
    (tracked : name ∈ module.trackedNames) :
    ∃ token ∈ Token.scan source, token.isIdentifier = true ∧ token.text = name := by
  have own : name ∈ module.ownNames →
      ∃ token ∈ Token.scan source, token.isIdentifier = true ∧ token.text = name :=
    exists_token_of_mem_ownNames parsed
  have tracked := (List.mem_filter.mp tracked).1
  simp only [List.mem_append] at tracked
  rcases tracked with (inPorts | inSignals) | inAssigns | inBlocks
  · exact own (mem_ownNames.mpr (.inl inPorts))
  · exact own (mem_ownNames.mpr (.inr (.inl inSignals)))
  · exact own (mem_ownNames.mpr (.inr (.inr inAssigns)))
  · obtain ⟨block, member, assigned⟩ := List.mem_flatMap.mp inBlocks
    have target := mem_assignedTargets.mp assigned
    obtain ⟨token, inSource, isName, same⟩ := exists_token_of_mem_targets parsed member target
    exact ⟨token, inSource, (Bool.and_eq_true_iff.mp isName).1, same⟩

end Module

end MiniVerilog
