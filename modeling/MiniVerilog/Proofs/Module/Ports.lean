import MiniVerilog.Proofs.Module.Widths

/-! # The interface of a module that was read

No two ports of a module that was read have the same name, and each has at least one bit and at
most as many as a width can say (`MiniVerilog.Module.portsFit_of_ofSource?`). The names of the
module and of its ports are identifiers (`MiniVerilog.Module.isLexeme_name`,
`MiniVerilog.Module.isLexeme_of_mem_ports`).
-/

namespace MiniVerilog

/-- What has a new name is declared at the end. -/
theorem declare_of_not_mem {α : Type} {nameOf : α → String} {entry : α} {entries : List α}
    (fresh : nameOf entry ∉ entries.map nameOf) :
    declare nameOf entry entries = entries ++ [entry] := by
  induction entries with
  | nil => rfl
  | cons first entries ih =>
      rw [List.map_cons, List.mem_cons, not_or] at fresh
      rw [declare, if_neg fun same => fresh.1 same.symm, ih fresh.2]
      rfl

/-- What has a known name leaves the names as they are. -/
theorem map_declare_of_mem {α : Type} {nameOf : α → String} {entry : α} {entries : List α}
    (known : nameOf entry ∈ entries.map nameOf) :
    (declare nameOf entry entries).map nameOf = entries.map nameOf := by
  induction entries with
  | nil => cases known
  | cons first entries ih =>
      rw [declare]
      split
      · rename_i same
        rw [List.map_cons, List.map_cons, same]
      · rename_i other
        rcases List.mem_cons.mp known with same | later
        · exact (other same.symm).elim
        · rw [List.map_cons, List.map_cons, ih later]

/-- Declaring an entry keeps the names distinct. -/
theorem nodup_declare {α : Type} {nameOf : α → String} {entries : List α}
    (distinct : (entries.map nameOf).Nodup) (entry : α) :
    ((declare nameOf entry entries).map nameOf).Nodup := by
  by_cases known : nameOf entry ∈ entries.map nameOf
  · rwa [map_declare_of_mem known]
  · rw [declare_of_not_mem known, List.map_append, List.map_singleton]
    exact List.nodup_append.mpr ⟨distinct, List.pairwise_singleton _ _,
      fun name old other new same => known (List.mem_singleton.mp new ▸ same ▸ old)⟩

/-- The name of a header is the text of a name among the tokens. -/
theorem Source.findHeader_name {tokens rest : List Token} {name : String}
    (found : findHeader tokens = some (name, rest)) :
    name ∈ textsOf Token.isIdentifier tokens := by
  fun_induction findHeader tokens with
  | case1 opening second rest header =>
      cases found
      have identifier : second.isIdentifier = true := (Bool.and_eq_true_iff.mp header).2
      refine List.mem_map_of_mem (List.mem_filter.mpr ⟨?_, identifier⟩)
      exact List.mem_cons_of_mem _ List.mem_cons_self
  | case2 opening second others _ ih =>
      obtain ⟨token, inside, same⟩ := List.mem_map.mp (ih found)
      obtain ⟨member, identifier⟩ := List.mem_filter.mp inside
      exact List.mem_map.mpr
        ⟨token, List.mem_filter.mpr ⟨List.mem_cons_of_mem _ member, identifier⟩, same⟩
  | case3 => cases found

namespace Module

variable {module : Module}

/-- A width is capped. -/
theorem widthOfRange_le (module : Module) (range : Option Source.Range) :
    module.widthOfRange range ≤ Value.maxWidth := by
  have one : 1 ≤ Value.maxWidth := by decide
  cases range with
  | none => exact one
  | some range =>
      unfold widthOfRange
      simp only
      split
      · exact Nat.min_le_right _ _
      · exact one

/-- The ports have different names and widths that there are. -/
structure PortsFit (module : Module) : Prop where
  distinct : (module.ports.map Port.name).Nodup
  widths : ∀ port ∈ module.ports, 0 < port.width ∧ port.width ≤ Value.maxWidth

namespace PortsFit

/-- Declaring a port with a width that fits keeps all ports fitting. -/
theorem declarePort (fit : module.PortsFit) {port : Port}
    (width : 0 < port.width ∧ port.width ≤ Value.maxWidth) :
    (module.declarePort port).PortsFit := by
  refine ⟨nodup_declare fit.distinct port, fun other member => ?_⟩
  rcases mem_declare member with rfl | old
  · exact width
  · exact fit.widths other old

theorem of_ports_eq {other : Module} (fit : module.PortsFit) (same : other.ports = module.ports) :
    other.PortsFit :=
  ⟨same ▸ fit.distinct, same ▸ fit.widths⟩

/-- **An item keeps all ports fitting**: distinct names, and widths from 1 to the cap. -/
theorem addItem (fit : module.PortsFit) (item : Source.Item) : (module.addItem item).PortsFit := by
  cases item with
  | ports direction isReg signed range names =>
      have width : 0 < module.widthOfRange range ∧ module.widthOfRange range ≤ Value.maxWidth :=
        ⟨widthOfRange_pos module range, widthOfRange_le module range⟩
      refine List.foldlRecOn names _ fit fun before fit declarator _ => ?_
      have declared : (before.declarePort ⟨declarator.name, direction, module.widthOfRange range,
          signed, declarator.line⟩).PortsFit := fit.declarePort width
      unfold addPort
      simp only
      split
      · exact declared.of_ports_eq rfl
      · exact declared
  | signals kind signed range names =>
      exact List.foldlRecOn names _ fit fun before fit declarator _ => fit.of_ports_eq rfl
  | parameters isLocal names =>
      exact List.foldlRecOn names _ fit fun before fit declarator _ => fit.of_ports_eq rfl
  | assign | always | instanceOf => exact fit.of_ports_eq rfl

end PortsFit

/-- **The ports of a module that was read** have different names and widths that there are. -/
theorem portsFit_of_ofSource? {source : String} (parsed : ofSource? source = some module) :
    module.PortsFit := by
  obtain ⟨name, items, rfl, -⟩ := exists_items_of_ofSource? parsed
  exact List.foldlRecOn items addItem ⟨List.nodup_nil, List.forall_mem_nil _⟩
    fun before fit item _ => fit.addItem item

/-- A name that is an identifier of the source is a lexeme. -/
theorem isLexeme_of_exists_token {source name : String}
    (known : ∃ token ∈ Token.scan source, token.isIdentifier = true ∧ token.text = name) :
    Token.IsLexeme .identifier name := by
  obtain ⟨token, scanned, identifier, same⟩ := known
  have kind : token.kind = .identifier := beq_iff_eq.mp identifier
  have code : token.kind ≠ .comment ∧ token.kind ≠ .string := by
    rw [kind]
    exact ⟨TokenKind.noConfusion, TokenKind.noConfusion⟩
  have lexeme := Token.isLexeme_of_mem_scan scanned code.1 code.2
  rwa [kind, same] at lexeme

/-- A port of a module that was read has the name of an identifier. -/
theorem isLexeme_of_mem_ports {source : String} (parsed : ofSource? source = some module)
    {port : Port} (member : port ∈ module.ports) : Token.IsLexeme .identifier port.name := by
  have own : port.name ∈ module.ownNames :=
    mem_ownNames.mpr (.inl (List.mem_map_of_mem member))
  exact isLexeme_of_exists_token (exists_token_of_mem_ownNames parsed own)

/-- No item changes the name of a module. -/
theorem name_addItem (module : Module) (item : Source.Item) :
    (module.addItem item).name = module.name := by
  cases item with
  | ports direction isReg signed range names =>
      refine foldl_keeps name _ (fun before declarator _ => ?_) module
      unfold addPort
      simp only
      split <;> rfl
  | signals kind signed range names =>
      exact foldl_keeps name (addSignal kind signed _) (fun _ _ _ => rfl) module
  | parameters isLocal names =>
      exact foldl_keeps name (addParameter isLocal) (fun _ _ _ => rfl) module
  | assign | always | instanceOf => rfl

theorem name_ofItems (name : String) (items : List Source.Item) :
    (ofItems name items).name = name :=
  List.foldlRecOn (motive := fun after => after.name = name) items addItem rfl
    fun before same item _ => (before.name_addItem item).trans same

/-- A module that was read has the name of an identifier. -/
theorem isLexeme_name {source : String} (parsed : ofSource? source = some module) :
    Token.IsLexeme .identifier module.name := by
  obtain ⟨name, items, rfl, read⟩ := exists_items_of_ofSource? parsed
  obtain ⟨⟨found, rest⟩, header, same⟩ := Option.map_eq_some_iff.mp read
  cases same
  rw [name_ofItems]
  exact isLexeme_of_exists_token (mem_scan_of_mem_textsOf (Source.findHeader_name header))

end Module

end MiniVerilog
