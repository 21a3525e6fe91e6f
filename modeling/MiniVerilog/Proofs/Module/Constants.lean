import MiniVerilog.Proofs.Module.Ports

/-! # The values of parameters

The declarations of a module are added one after another, and each of them reads the parameters
before it. A parameter is read with the value of its last declaration, so after that all
declarations read the value that the whole module has (`MiniVerilog.Module.constant?_ofItems`).
-/

namespace MiniVerilog

/-- The declarations of an item, each as an item of its own. -/
def Source.Item.declarations : Source.Item → List Source.Item
  | .ports direction isReg signed range names =>
    names.map fun declarator => .ports direction isReg signed range [declarator]
  | .signals kind signed range names =>
    names.map fun declarator => .signals kind signed range [declarator]
  | .parameters isLocal names => names.map fun declarator => .parameters isLocal [declarator]
  | item => [item]

namespace Module

theorem widthOfRange_congr {first second : Module} (same : first.parameters = second.parameters)
    (range : Option Source.Range) : first.widthOfRange range = second.widthOfRange range := by
  unfold widthOfRange fold constant?
  rw [same]

/-- A port adds no parameter. Neither does a signal. -/
theorem parameters_addPort (direction : Direction) (isReg signed : Bool) (width : Nat)
    (module : Module) (declarator : Source.Declarator) :
    (addPort direction isReg signed width module declarator).parameters = module.parameters := by
  unfold addPort
  simp only
  split <;> rfl

theorem parameters_addSignal (kind : SignalKind) (signed : Bool) (width : Nat) (module : Module)
    (declarator : Source.Declarator) :
    (addSignal kind signed width module declarator).parameters = module.parameters :=
  rfl

/-- The width of a declaration does not change by the names that are declared before its own. -/
theorem foldl_single {add : Nat → Module → Source.Declarator → Module}
    (keeps : ∀ width module declarator, (add width module declarator).parameters =
      module.parameters)
    {range : Option Source.Range} {single : Source.Declarator → Source.Item}
    (adds : ∀ (module : Module) declarator,
      module.addItem (single declarator) = add (module.widthOfRange range) module declarator)
    (names : List Source.Declarator) (module : Module) :
    (names.map single).foldl addItem module =
      names.foldl (add (module.widthOfRange range)) module := by
  induction names generalizing module with
  | nil => rfl
  | cons declarator names ih =>
      rw [List.map_cons, List.foldl_cons, List.foldl_cons, adds, ih,
        widthOfRange_congr (keeps _ module declarator)]

/-- **An item is added by adding its declarations.** -/
theorem foldl_declarations (module : Module) (item : Source.Item) :
    item.declarations.foldl addItem module = module.addItem item := by
  cases item with
  | ports direction isReg signed range names =>
      exact foldl_single (parameters_addPort direction isReg signed) (fun _ _ => rfl) names module
  | signals kind signed range names =>
      exact foldl_single (parameters_addSignal kind signed) (fun _ _ => rfl) names module
  | parameters isLocal names =>
      induction names generalizing module with
      | nil => rfl
      | cons declarator names ih => exact ih (addParameter isLocal module declarator)
  | assign | always | instanceOf => rfl

/-- **A module is made of the declarations of its items.** -/
theorem ofItems_declarations (name : String) (items : List Source.Item) :
    ofItems name (items.flatMap Source.Item.declarations) = ofItems name items := by
  unfold ofItems
  generalize ({ name := name } : Module) = module
  induction items generalizing module with
  | nil => rfl
  | cons item items ih =>
      rw [List.flatMap_cons, List.foldl_append, foldl_declarations, ih]
      rfl

/-- **A parameter gives its name a value**, 0 if its own is no constant, and changes no other
constant. -/
theorem constant?_addParameter (isLocal : Bool) (module : Module) (declarator : Source.Declarator)
    (name : String) :
    (addParameter isLocal module declarator).constant? name =
      if declarator.name = name then some ((declarator.initial.bind module.fold).getD 0)
      else module.constant? name := by
  unfold addParameter constant?
  simp only [List.reverse_append, List.reverse_singleton, List.singleton_append,
    List.find?_cons]
  by_cases same : declarator.name = name
  · simp only [same, decide_true, Option.map_some, if_true]
  · simp only [same, decide_false, if_false]

/-- An item that does not declare a parameter leaves its value as it is. -/
theorem constant?_addItem {item : Source.Item} {name : String} (foreign : name ∉ item.constants)
    (module : Module) : (module.addItem item).constant? name = module.constant? name := by
  cases item with
  | ports direction isReg signed range names =>
      refine foldl_keeps (constant? · name) _ (fun before declarator _ => ?_) module
      rw [constant?, parameters_addPort]
      rfl
  | signals kind signed range names =>
      exact foldl_keeps (constant? · name) (addSignal kind signed _) (fun _ _ _ => rfl) module
  | parameters isLocal names =>
      refine foldl_keeps (constant? · name) _ (fun before declarator member => ?_) module
      have other : declarator.name ≠ name :=
        fun same => foreign (List.mem_map.mpr ⟨declarator, member, same⟩)
      rw [constant?_addParameter, if_neg other]
  | assign | always | instanceOf => rfl

/-- **After its last declaration a parameter keeps its value.** -/
theorem constant?_ofItems (moduleName : String) {name : String} (earlier : List Source.Item)
    {later : List Source.Item} (foreign : ∀ item ∈ later, name ∉ item.constants) :
    (ofItems moduleName (earlier ++ later)).constant? name =
      (ofItems moduleName earlier).constant? name := by
  unfold ofItems
  rw [List.foldl_append]
  exact List.foldlRecOn
    (motive := fun after => after.constant? name = (ofItems moduleName earlier).constant? name)
    later addItem rfl fun before same item member =>
      (constant?_addItem (foreign item member) before).trans same

/-- A name that is declared as a parameter is read with the value of a declaration. -/
theorem exists_constant? {module : Module} {parameter : Parameter}
    (declared : parameter ∈ module.parameters) :
    ∃ last ∈ module.parameters, last.name = parameter.name ∧
      module.constant? parameter.name = some last.value := by
  have found : (module.parameters.reverse.find? fun other => other.name = parameter.name).isSome :=
    List.find?_isSome.mpr
      ⟨parameter, List.mem_reverse.mpr declared, decide_eq_true rfl⟩
  obtain ⟨last, same⟩ := Option.isSome_iff_exists.mp found
  refine ⟨last, List.mem_reverse.mp (List.mem_of_find?_eq_some same),
    of_decide_eq_true (List.find?_some same :), ?_⟩
  rw [constant?, same, Option.map_some]

/-- The parameter that is found under a name has the value that its declarations agree on. -/
theorem map_value_parameter? {module : Module} {parameter : Parameter} {value : Value}
    (declared : parameter ∈ module.parameters)
    (agree : ∀ other ∈ module.parameters, other.name = parameter.name → other.value = value) :
    (module.parameter? parameter.name).map (·.value) = some value := by
  have found : (module.parameter? parameter.name).isSome :=
    List.find?_isSome.mpr ⟨parameter, declared, decide_eq_true rfl⟩
  obtain ⟨first, same⟩ := Option.isSome_iff_exists.mp found
  rw [same, Option.map_some]
  exact congrArg some
    (agree first (List.mem_of_find?_eq_some same) (of_decide_eq_true (List.find?_some same :)))

/-- Parameters are kept in the order of their declarations, repeated ones included. -/
theorem names_foldl_addParameter (isLocal : Bool) (names : List Source.Declarator)
    (module : Module) :
    (names.foldl (addParameter isLocal) module).parameters.map (·.name) =
      module.parameters.map (·.name) ++ names.map (·.name) := by
  induction names generalizing module with
  | nil => exact (List.append_nil _).symm
  | cons declarator names ih =>
      have one : (addParameter isLocal module declarator).parameters.map (·.name) =
          module.parameters.map (·.name) ++ [declarator.name] := List.map_append
      rw [List.foldl_cons, ih, one, List.append_assoc]
      rfl

/-- An item adds the parameters that it declares. -/
theorem names_addItem (module : Module) (item : Source.Item) :
    (module.addItem item).parameters.map (·.name) =
      module.parameters.map (·.name) ++ item.constants := by
  have unchanged {after : Module} (same : after.parameters = module.parameters) :
      after.parameters.map (·.name) = module.parameters.map (·.name) ++ [] := by
    rw [same, List.append_nil]
  cases item with
  | ports direction isReg signed range names =>
      exact unchanged (foldl_keeps parameters (addPort direction isReg signed _)
        (fun _ _ _ => parameters_addPort ..) module)
  | signals kind signed range names =>
      exact unchanged (foldl_keeps parameters (addSignal kind signed _) (fun _ _ _ => rfl) module)
  | parameters isLocal names => exact names_foldl_addParameter isLocal names module
  | assign | always | instanceOf => exact unchanged rfl

/-- **The parameters of a module are those that its items declare.** -/
theorem names_parameters (moduleName : String) (items : List Source.Item) :
    (ofItems moduleName items).parameters.map (·.name) = items.flatMap Source.Item.constants := by
  induction items using List.reverseRecOn with
  | nil => rfl
  | append_singleton items item ih =>
      have last : ofItems moduleName (items ++ [item]) = (ofItems moduleName items).addItem item :=
        List.foldl_append
      rw [last, names_addItem, ih, List.flatMap_append, List.flatMap_singleton]

/-- A parameter of a module that was read has the name of an identifier. -/
theorem isLexeme_of_mem_parameters {source : String} {module : Module}
    (parsed : ofSource? source = some module) {parameter : Parameter}
    (declared : parameter ∈ module.parameters) : Token.IsLexeme .identifier parameter.name := by
  obtain ⟨moduleName, items, rfl, read⟩ := exists_items_of_ofSource? parsed
  apply isLexeme_of_exists_token
  apply mem_scan_of_mem_textsOf
  apply Source.readModule?_constants read
  rw [← names_parameters moduleName]
  exact List.mem_map_of_mem declared

end Module

end MiniVerilog
