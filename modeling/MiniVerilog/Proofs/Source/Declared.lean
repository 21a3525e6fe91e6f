import MiniVerilog.Proofs.Source.Names
import MiniVerilog.Proofs.Source.NamesPass

/-! # Declarations stand in the order of their tokens

Every port and every signal of an item is declared by an identifier token, whose text is its name
and whose line is its line. The declarations of all items stand in the order of these tokens
(`MiniVerilog.Source.readModule?_places`).
-/

namespace MiniVerilog.Source

open List (suffix_refl suffix_cons drop_suffix)

/-- The names among tokens, with their lines. -/
def namePlaces (tokens : List Token) : List (String × Nat) :=
  (tokens.filter Token.isIdentifier).map fun token => (token.text, token.line)

/-- The name that is declared, with its line. -/
def Declarator.place (declarator : Declarator) : String × Nat :=
  (declarator.name, declarator.line)

/-- The ports and signals that an item declares. -/
def Item.declared : Item → List Declarator
  | .ports _ _ _ _ names => names
  | .signals _ _ _ names => names
  | _ => []

/-- A reader leaves a suffix of the tokens, and before it stand names at these places, in this
order. -/
def ReadsPlaces (tokens : List Token) (places : List (String × Nat)) (rest : List Token) : Prop :=
  ∃ front, tokens = front ++ rest ∧ places.Sublist (namePlaces front)

namespace ReadsPlaces

variable {tokens rest last : List Token} {places others : List (String × Nat)}

theorem none (suffix : rest <:+ tokens) : ReadsPlaces tokens [] rest := by
  obtain ⟨front, rfl⟩ := suffix
  exact ⟨front, rfl, List.nil_sublist _⟩

/-- Places that are read one list after another are read together. -/
theorem append (first : ReadsPlaces tokens places rest) (second : ReadsPlaces rest others last) :
    ReadsPlaces tokens (places ++ others) last := by
  obtain ⟨front, rfl, before⟩ := first
  obtain ⟨middle, rfl, after⟩ := second
  refine ⟨front ++ middle, (List.append_assoc _ _ _).symm, ?_⟩
  rw [namePlaces, List.filter_append, List.map_append]
  exact before.append after

theorem mono (reads : ReadsPlaces rest places last) (suffix : rest <:+ tokens) :
    ReadsPlaces tokens places last :=
  (ReadsPlaces.none suffix).append reads

theorem shorten (reads : ReadsPlaces tokens places rest) (suffix : last <:+ rest) :
    ReadsPlaces tokens places last :=
  List.append_nil places ▸ reads.append (.none suffix)

/-- A name before the tokens is read with those in them. -/
theorem cons {token : Token} (isName : token.isIdentifier = true)
    (reads : ReadsPlaces tokens places rest) :
    ReadsPlaces (token :: tokens) ((token.text, token.line) :: places) rest := by
  obtain ⟨front, rfl, inside⟩ := reads
  refine ⟨token :: front, rfl, ?_⟩
  rw [namePlaces, List.filter_cons_of_pos isName, List.map_cons]
  exact inside.cons_cons _

/-- Places that were read are among those of the tokens, in the same order. -/
theorem sublist (reads : ReadsPlaces tokens places rest) :
    places.Sublist (namePlaces tokens) := by
  obtain ⟨front, rfl, inside⟩ := reads
  rw [namePlaces, List.filter_append, List.map_append]
  exact inside.trans (List.sublist_append_left _ _)

end ReadsPlaces

/-- **A list of names is read in order.** -/
theorem ReadsList.places {value : List Token → Option (Option (List String) × List Token)}
    {take : List Token → List Declarator × List Token} (reads : ReadsList value take)
    (tokens : List Token) :
    ReadsPlaces tokens ((take tokens).1.map Declarator.place) (take tokens).2 := by
  induction size : tokens.length using Nat.strong_induction_on generalizing tokens with
  | _ bound ih =>
      cases tokens with
      | nil =>
          rw [reads.nil]
          exact .none (suffix_refl [])
      | cons token rest =>
          rw [reads.cons]
          split
          · rename_i isName
            cases behindName : value rest with
            | none => exact .none (suffix_cons token rest)
            | some found =>
                obtain ⟨initial, after⟩ := found
                have suffix := reads.suffix rest initial after behindName
                dsimp only
                split
                · have following := (drop_suffix 1 after).trans suffix
                  have shorter : (after.drop 1).length < bound :=
                    size ▸ Nat.lt_succ_of_le following.length_le
                  exact .cons isName ((ih _ shorter _ rfl).mono following)
                · exact .cons isName (.none suffix)
          · exact .none (suffix_refl _)

/-- Declared ports stand at names of the tokens. -/
theorem takePorts_places (direction : Direction) (tokens : List Token) :
    ReadsPlaces tokens ((takePorts direction tokens).1.declared.map Declarator.place)
      (takePorts direction tokens).2 := by
  have before := (takeRange?_suffix _).trans
    ((skipIf_suffix isSignedMark _).trans (skipIf_suffix (fun token =>
      token.isKeyword .reg || token.isKeyword .wire) tokens))
  exact (readsList_ports.places _).mono before

/-- Declared signals stand at names of the tokens. -/
theorem takeSignals_places (kind : SignalKind) (tokens : List Token) :
    ReadsPlaces tokens ((takeSignals kind tokens).1.declared.map Declarator.place)
      (takeSignals kind tokens).2 := by
  have before := (takeRange?_suffix _).trans (skipIf_suffix isSignedMark tokens)
  exact ((readsList_signals.places _).mono before).shorten (skipIf_suffix _ _)

/-- Items that declare neither ports nor signals. -/
theorem ReadsPlaces.of_items {tokens rest : List Token} {items : List Item}
    (reads : ReadsItems tokens items rest) (nothing : ∀ item ∈ items, item.declared = []) :
    ReadsPlaces tokens ((items.flatMap Item.declared).map Declarator.place) rest := by
  rw [List.flatMap_eq_nil_iff.mpr nothing]
  exact .none reads.names.suffix

theorem ReadsPlaces.single {tokens rest : List Token} {item : Item}
    (reads : ReadsPlaces tokens (item.declared.map Declarator.place) rest) :
    ReadsPlaces tokens (([item].flatMap Item.declared).map Declarator.place) rest := by
  rwa [List.flatMap_singleton]

/-- A continuous assignment declares nothing. -/
theorem takeAssign_declared (line : Nat) (tokens : List Token) :
    ∀ item ∈ (takeAssign line tokens).1, item.declared = [] := by
  unfold takeAssign
  split
  · exact List.forall_mem_nil _
  · split
    · unfold takeAssignment?
      split
      · exact List.forall_mem_singleton.mpr rfl
      · exact List.forall_mem_nil _
    · exact List.forall_mem_nil _

/-- An instance declares nothing. -/
theorem takeInstance_declared (moduleName : Token) (tokens : List Token) :
    ∀ item ∈ (takeInstance moduleName tokens).1, item.declared = [] := by
  unfold takeInstance takeInstanceName
  split
  · exact List.forall_mem_nil _
  · split
    · exact List.forall_mem_singleton.mpr rfl
    · exact List.forall_mem_nil _

/-- **What an item declares stands at names of the tokens**, in their order. -/
theorem takeItem_places (first : Token) (rest : List Token) :
    ReadsPlaces rest (((takeItem first rest).1.flatMap Item.declared).map Declarator.place)
      (takeItem first rest).2 := by
  have parameters (isLocal : Bool) :
      ReadsItems rest [.parameters isLocal (takeParameters rest).1]
        (skipIf (Token.isOperator ";") (takeParameters rest).2) :=
    .parameters isLocal ((takeParameters_names rest).shorten (skipIf_suffix _ _))
  unfold takeItem
  split
  · exact .single (takePorts_places .input rest)
  · exact .single (takePorts_places .output rest)
  · exact .single (takePorts_places .inout rest)
  · exact .single (takeSignals_places .wire rest)
  · exact .single (takeSignals_places .reg rest)
  · exact .of_items (parameters false) (List.forall_mem_singleton.mpr rfl)
  · exact .of_items (parameters true) (List.forall_mem_singleton.mpr rfl)
  · exact .of_items (takeAlways_items first.line rest) (List.forall_mem_singleton.mpr rfl)
  · exact .of_items (takeAssign_items first.line rest) (takeAssign_declared first.line rest)
  · exact .none (skipPast_suffix _ rest)
  · exact .none (skipPast_suffix _ rest)
  · split
    · exact .of_items (takeInstance_items first rest) (takeInstance_declared first rest)
    · exact .none (suffix_refl rest)
  · exact .none (suffix_refl rest)

/-- What the items of a module declare stands at names of the tokens, in their order. -/
theorem readItems_places (tokens : List Token) :
    ReadsPlaces tokens (((readItems tokens).flatMap Item.declared).map Declarator.place) [] := by
  fun_induction readItems tokens with
  | case1 => exact .none (suffix_refl [])
  | case2 first rest => exact .none List.nil_suffix
  | case3 first rest _ ih =>
      rw [List.flatMap_append, List.map_append]
      exact ((takeItem_places first rest).append ih).mono (suffix_cons first rest)

/-- The parameters of a header are no ports and no signals. -/
theorem takeHeaderParameters_declared (tokens : List Token) :
    ∀ item ∈ (takeHeaderParameters tokens).1, item.declared = [] := by
  fun_induction takeHeaderParameters tokens with
  | case1 => exact List.forall_mem_nil _
  | case2 => exact List.forall_mem_nil _
  | case3 first rest _ _ names _ following ih => exact List.forall_mem_cons.mpr ⟨rfl, ih⟩
  | case4 first rest => exact List.forall_mem_singleton.mpr rfl
  | case5 first rest _ _ ih => exact ih

/-- A list of header parameters declares no ports and no signals. -/
theorem readHeaderParameters_declared (tokens : List Token) :
    ∀ item ∈ (readHeaderParameters tokens).1, item.declared = [] := by
  unfold readHeaderParameters
  split
  · split
    · exact takeHeaderParameters_declared _
    · exact List.forall_mem_nil _
  · exact List.forall_mem_nil _

/-- **What a module declares stands in the order of the identifiers that name it**, each on the line
of its identifier. -/
theorem readModule?_places {tokens : List Token} {name : String} {items : List Item}
    (read : readModule? tokens = some (name, items)) :
    ((items.flatMap Item.declared).map Declarator.place).Sublist (namePlaces tokens) := by
  obtain ⟨⟨found, rest⟩, header, same⟩ := Option.map_eq_some_iff.mp read
  cases same
  have parameters := ReadsPlaces.of_items (readHeaderParameters_items rest)
    (readHeaderParameters_declared rest)
  rw [List.flatMap_append, List.map_append]
  exact ((parameters.append (readItems_places _)).mono (findHeader_suffix header)).sublist

end MiniVerilog.Source
