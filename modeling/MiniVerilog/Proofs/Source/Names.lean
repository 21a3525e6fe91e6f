import MiniVerilog.Proofs.Statement.Placement
import MiniVerilog.Proofs.Source.Reading
import MiniVerilog.Proofs.Source.Suffix

/-! # Names come from tokens

Every name that a module declares or assigns is the text of an identifier token, and a
name that is assigned in procedural code is none of the words that open a case statement
(`MiniVerilog.Source.readModule?_names`). The names of its parameters are texts of identifier
tokens as well (`MiniVerilog.Source.readModule?_constants`).
-/

namespace MiniVerilog.Source

open List (suffix_refl suffix_cons drop_suffix)
open StatementTree (targetsOfBody targetsOfArms)

/-- The token can be assigned in procedural code. -/
def isTarget (token : Token) : Bool :=
  token.isIdentifier && !isCaseVariant token

/-- The names assigned in a body. -/
def assignedIn (body : List Procedure) : List String :=
  targetsOfBody (treesOfBody body)

/-- The names assigned in the entries of a case statement. -/
def assignedInItems (items : List CaseItem) : List String :=
  targetsOfArms (treesOfArms items) ++ targetsOfBody (treesOfOtherwise [] items)

/-- The targets of a body are those of its parts, in order. -/
theorem targetsOfBody_append (first others : List StatementTree) :
    targetsOfBody (first ++ others) = targetsOfBody first ++ targetsOfBody others := by
  induction first with
  | nil => rfl
  | cons tree first ih =>
      rw [List.cons_append, targetsOfBody, ih, targetsOfBody, List.append_assoc]

theorem assignedIn_append (first others : List Procedure) :
    assignedIn (first ++ others) = assignedIn first ++ assignedIn others := by
  rw [assignedIn, treesOfBody_append, targetsOfBody_append]
  rfl

theorem assignedIn_branch (condition : String) (thenBody elseBody : List Procedure) :
    assignedIn [.branch condition thenBody elseBody] = assignedIn thenBody ++ assignedIn elseBody :=
  List.append_nil _

theorem assignedIn_select (subject : String) (items : List CaseItem) :
    assignedIn [.select subject items] = assignedInItems items :=
  List.append_nil _

theorem assignedInItems_arm (labels : List String) (body : List Procedure) (items : List CaseItem) :
    assignedInItems (.arm labels body :: items) = assignedIn body ++ assignedInItems items :=
  List.append_assoc ..

/-- A default body counts, or a later one does. -/
theorem assigned_treesOfOtherwise (trees : List StatementTree) (items : List CaseItem) :
    targetsOfBody (treesOfOtherwise trees items) ⊆
      targetsOfBody trees ++ targetsOfBody (treesOfOtherwise [] items) := by
  induction items generalizing trees with
  | nil => exact List.subset_append_left _ _
  | cons item items ih =>
      cases item with
      | arm labels body => exact ih trees
      | otherwise body => exact List.subset_append_right _ _

/-- The last default wins, so a default before other entries adds at most the names that its body
assigns. -/
theorem assignedInItems_otherwise (body : List Procedure) (items : List CaseItem) :
    assignedInItems (.otherwise body :: items) ⊆ assignedIn body ++ assignedInItems items := by
  have default := assigned_treesOfOtherwise (treesOfBody body) items
  intro name member
  rcases List.mem_append.mp member with inArms | inDefault
  · exact List.mem_append_right _ (List.mem_append_left _ inArms)
  · rcases List.mem_append.mp (default inDefault) with here | later
    · exact List.mem_append_left _ here
    · exact List.mem_append_right _ (List.mem_append_right _ later)

/-- What the three readers of procedural code assign, and what they leave. -/
structure ReadsTargets (tokens : List Token) : Prop where
  statement :
    ReadsNames isTarget tokens (assignedIn (takeStatement tokens).1) (takeStatement tokens).2
  block : ReadsNames isTarget tokens (assignedIn (takeBlock tokens).1) (takeBlock tokens).2
  items : ReadsNames isTarget tokens (assignedInItems (takeCaseItems tokens).1)
    (takeCaseItems tokens).2

/-- An assignment assigns its target, which is a token that can be assigned, or it is none and
assigns nothing. -/
theorem takeAssignment_targets {target : Token} (isName : isTarget target = true)
    (tokens : List Token) :
    ReadsNames isTarget (target :: tokens) (assignedIn (takeAssignment target tokens).1)
      (takeAssignment target tokens).2 := by
  have suffix := takeAssignment_suffix target tokens
  have assigned : ReadsNames isTarget (target :: tokens) [target.text]
      (takeAssignment target tokens).2 := .cons isName (.none suffix)
  have names : assignedIn (takeAssignment target tokens).1 ⊆ [target.text] := by
    unfold takeAssignment
    simp only
    split
    · exact List.Subset.refl _
    · split
      · exact List.Subset.refl _
      · exact List.nil_subset _
  exact assigned.subset names

section Step

variable {first : Token} {rest : List Token}
  (shorter : ∀ others : List Token, others.length ≤ rest.length → ReadsTargets others)

include shorter

/-- A branch assigns names of tokens if the statements in it do. -/
theorem takeBranch_targets :
    ReadsNames isTarget rest (assignedIn (takeBranch rest).1) (takeBranch rest).2 := by
  have condition := takeParenthesised_suffix rest
  have thenPart := (shorter _ condition.length_le).statement
  have after := thenPart.suffix.trans condition
  have elsePart := (shorter _ ((drop_suffix 1 _).trans after).length_le).statement
  unfold takeBranch
  simp only
  split
  · rw [assignedIn_branch]
    exact (thenPart.append (elsePart.mono (drop_suffix 1 _))).mono condition
  · rw [assignedIn_branch]
    exact (thenPart.append (.none (suffix_refl _))).mono condition

/-- A case statement assigns names of tokens if its entries do. -/
theorem takeSelect_targets :
    ReadsNames isTarget rest (assignedIn (takeSelect rest).1) (takeSelect rest).2 := by
  have subject := takeParenthesised_suffix rest
  have items := (shorter _ subject.length_le).items
  unfold takeSelect
  simp only
  rw [assignedIn_select]
  exact items.mono subject

/-- A loop assigns nothing, as its body is dropped. -/
theorem takeLoop_targets {others : List Token} (suffix : others <:+ rest) :
    ReadsNames isTarget rest (assignedIn (takeLoop others).1) (takeLoop others).2 :=
  .none ((shorter others suffix.length_le).statement.suffix.trans suffix)

/-- What starts with no reserved word of its own assigns names of tokens. -/
theorem takeOther_targets :
    ReadsNames isTarget (first :: rest) (assignedIn (takeOther first rest).1)
      (takeOther first rest).2 := by
  have delay := skipIf_suffix isDelay rest
  unfold takeOther
  split
  · exact .none (suffix_cons first rest)
  · split
    · exact (shorter _ delay.length_le).statement.mono (delay.trans (suffix_cons first rest))
    · exact .none (skipStatement_suffix 0 _)

/-- **A statement assigns names of tokens**, when shorter lists are read so. -/
theorem takeStatement_targets :
    ReadsNames isTarget (first :: rest) (assignedIn (takeStatement (first :: rest)).1)
      (takeStatement (first :: rest)).2 := by
  have one := suffix_cons first rest
  rw [takeStatement_cons]
  cases kind : first.kind with
  | keyword word =>
      cases word with
      | begin_ =>
          have label := skipBlockLabel_suffix rest
          exact (shorter _ label.length_le).block.mono (label.trans one)
      | if_ => exact (takeBranch_targets shorter).mono one
      | case_ => exact (takeSelect_targets shorter).mono one
      | end_ | endcase | endmodule | else_ => exact .none (suffix_refl _)
      | for_ | while_ | repeat_ =>
          exact (takeLoop_targets shorter (takeParenthesised_suffix rest)).mono one
      | forever => exact (takeLoop_targets shorter (suffix_refl rest)).mono one
      | _ => exact takeOther_targets shorter
  | identifier =>
      dsimp only
      by_cases variant : isCaseVariant first = true
      · rw [if_pos variant]
        exact (takeSelect_targets shorter).mono one
      · rw [if_neg variant]
        apply takeAssignment_targets
        rw [isTarget, Token.isIdentifier, kind, Bool.eq_false_iff.mpr variant]
        rfl
  | _ => exact takeOther_targets shorter

/-- **A block assigns names of tokens**, when shorter lists are read so. -/
theorem takeBlock_targets :
    ReadsNames isTarget (first :: rest) (assignedIn (takeBlock (first :: rest)).1)
      (takeBlock (first :: rest)).2 := by
  have statement : ReadsNames isTarget (first :: rest)
      (assignedIn (takeStatement (first :: rest)).1) (takeStatement (first :: rest)).2 :=
    takeStatement_targets shorter
  rw [takeBlock_cons]
  split
  · exact .none (suffix_refl _)
  · split
    · exact .none (suffix_cons first rest)
    · simp only [assignedIn_append]
      split
      · rename_i fewer
        exact statement.append (shorter _ (Nat.le_of_lt_succ fewer)).block
      · have following := (shorter rest (Nat.le_refl _)).block.mono (suffix_cons first rest)
        exact ⟨following.suffix, List.append_subset.mpr ⟨statement.names, following.names⟩⟩

/-- The body of an entry and the entries after it. -/
theorem takeEntry_targets {others : List Token} (suffix : others <:+ rest) :
    ReadsNames isTarget (first :: rest)
      (assignedIn (takeStatement others).1 ++
        assignedInItems (takeCaseItems (takeStatement others).2).1)
      (takeCaseItems (takeStatement others).2).2 := by
  have body := (shorter others suffix.length_le).statement
  have following := (shorter _ (body.suffix.trans suffix).length_le).items
  exact (body.append following).mono (suffix.trans (suffix_cons first rest))

/-- **The entries of a case statement assign names of tokens**, when shorter lists are read so. -/
theorem takeCaseItems_targets :
    ReadsNames isTarget (first :: rest) (assignedInItems (takeCaseItems (first :: rest)).1)
      (takeCaseItems (first :: rest)).2 := by
  have inside := takeUntil_suffix endsLabels 0 (first :: rest)
  rw [takeCaseItems_cons]
  split
  · exact .none (suffix_refl _)
  split
  · exact .none (suffix_cons first rest)
  split
  · exact (takeEntry_targets shorter (skipIf_suffix _ rest)).subset (assignedInItems_otherwise _ _)
  cases read : takeUntil endsLabels 0 (first :: rest) with
  | mk words after =>
      rw [read] at inside
      cases after with
      | nil => exact .none List.nil_suffix
      | cons colon after =>
          have others : after <:+ rest := by
            rcases List.suffix_cons_iff.mp inside with same | later
            · cases same
              exact suffix_refl _
            · exact (suffix_cons colon after).trans later
          simp only
          split
          · rw [assignedInItems_arm]
            exact takeEntry_targets shorter others
          · split
            · rename_i fewer
              exact (shorter _ (Nat.le_of_lt_succ fewer)).items.mono inside
            · exact (shorter rest (Nat.le_refl _)).items.mono (suffix_cons first rest)

end Step

/-- **Procedural code assigns names of its tokens.** -/
theorem readsTargets (tokens : List Token) : ReadsTargets tokens := by
  induction size : tokens.length using Nat.strong_induction_on generalizing tokens with
  | _ bound ih =>
      cases tokens with
      | nil =>
          constructor
          · rw [takeStatement_nil]
            exact .none (suffix_refl [])
          · rw [takeBlock_nil]
            exact .none (suffix_refl [])
          · rw [takeCaseItems_nil]
            exact .none (suffix_refl [])
      | cons first rest =>
          have shorter (others : List Token) (le : others.length ≤ rest.length) :
              ReadsTargets others :=
            ih others.length (size ▸ Nat.lt_succ_of_le le) others rfl
          exact ⟨takeStatement_targets shorter, takeBlock_targets shorter,
            takeCaseItems_targets shorter⟩

/-- The names that an item declares or assigns outside procedural code. -/
def Item.names : Item → List String
  | .ports _ _ _ _ names => names.map Declarator.name
  | .signals _ _ _ names => names.map Declarator.name
  | .assign target _ _ => [target]
  | _ => []

/-- The names that an item assigns in procedural code. -/
def Item.assigned : Item → List String
  | .always _ body _ => assignedIn body
  | _ => []

/-- The names that an item declares as parameters. -/
def Item.constants : Item → List String
  | .parameters _ names => names.map Declarator.name
  | _ => []

/-- A reader of items leaves a suffix and gives names of tokens. -/
structure ReadsItems (tokens : List Token) (items : List Item) (rest : List Token) : Prop where
  names : ReadsNames Token.isIdentifier tokens (items.flatMap Item.names) rest
  assigned : ReadsNames isTarget tokens (items.flatMap Item.assigned) rest
  constants : ReadsNames Token.isIdentifier tokens (items.flatMap Item.constants) rest

namespace ReadsItems

variable {tokens rest last : List Token} {items others : List Item}

theorem none (suffix : rest <:+ tokens) : ReadsItems tokens [] rest :=
  ⟨.none suffix, .none suffix, .none suffix⟩

/-- Items without names. -/
theorem nameless
    (noNames : ∀ item ∈ items, item.names = [] ∧ item.assigned = [] ∧ item.constants = [])
    (suffix : rest <:+ tokens) : ReadsItems tokens items rest := by
  refine ⟨?_, ?_, ?_⟩
  · rw [List.flatMap_eq_nil_iff.mpr fun item member => (noNames item member).1]
    exact .none suffix
  · rw [List.flatMap_eq_nil_iff.mpr fun item member => (noNames item member).2.1]
    exact .none suffix
  · rw [List.flatMap_eq_nil_iff.mpr fun item member => (noNames item member).2.2]
    exact .none suffix

theorem mono (reads : ReadsItems rest items last) (suffix : rest <:+ tokens) :
    ReadsItems tokens items last :=
  ⟨reads.names.mono suffix, reads.assigned.mono suffix, reads.constants.mono suffix⟩

/-- Items that are read one list after another are read together. -/
theorem append (first : ReadsItems tokens items rest) (second : ReadsItems rest others last) :
    ReadsItems tokens (items ++ others) last := by
  constructor
  · rw [List.flatMap_append]
    exact first.names.append second.names
  · rw [List.flatMap_append]
    exact first.assigned.append second.assigned
  · rw [List.flatMap_append]
    exact first.constants.append second.constants

/-- An item without procedural code and parameters. -/
theorem declared {item : Item} (noCode : item.assigned = []) (noConstants : item.constants = [])
    (names : ReadsNames Token.isIdentifier tokens item.names rest) :
    ReadsItems tokens [item] rest := by
  refine ⟨?_, ?_, ?_⟩
  · rw [List.flatMap_singleton]
    exact names
  · rw [List.flatMap_singleton, noCode]
    exact .none names.suffix
  · rw [List.flatMap_singleton, noConstants]
    exact .none names.suffix

/-- Parameters with names of tokens are items with names of tokens. -/
theorem parameters (isLocal : Bool) {names : List Declarator}
    (constants : ReadsNames Token.isIdentifier tokens (names.map Declarator.name) rest) :
    ReadsItems tokens [.parameters isLocal names] rest := by
  refine ⟨.none constants.suffix, .none constants.suffix, ?_⟩
  rw [List.flatMap_singleton]
  exact constants

end ReadsItems

/-- The names of declared ports are names of tokens. -/
theorem takePorts_items (direction : Direction) (tokens : List Token) :
    ReadsItems tokens [(takePorts direction tokens).1] (takePorts direction tokens).2 := by
  have before := (takeRange?_suffix _).trans
    ((skipIf_suffix isSignedMark _).trans (skipIf_suffix (fun token =>
      token.isKeyword .reg || token.isKeyword .wire) tokens))
  exact .declared rfl rfl ((takePortNames_names _).mono before)

/-- The names of declared signals are names of tokens. -/
theorem takeSignals_items (kind : SignalKind) (tokens : List Token) :
    ReadsItems tokens [(takeSignals kind tokens).1] (takeSignals kind tokens).2 := by
  have before := (takeRange?_suffix _).trans (skipIf_suffix isSignedMark tokens)
  exact .declared rfl rfl
    (((takeSignalNames_names _).mono before).shorten (skipIf_suffix _ _))

/-- An always block declares no name, and the names it assigns are those of tokens. -/
theorem takeAlways_items (line : Nat) (tokens : List Token) :
    ReadsItems tokens [(takeAlways line tokens).1] (takeAlways line tokens).2 := by
  have before := takeEventControl_suffix tokens
  have body := (readsTargets (takeEventControl tokens).2).statement.mono before
  refine ⟨.none body.suffix, ?_, .none body.suffix⟩
  rw [List.flatMap_singleton]
  exact body

/-- The target of a continuous assignment is the name of a token. -/
theorem takeAssign_items (line : Nat) (tokens : List Token) :
    ReadsItems tokens (takeAssign line tokens).1 (takeAssign line tokens).2 := by
  unfold takeAssign
  split
  · exact .none (suffix_refl [])
  · rename_i target rest
    split
    · rename_i isName
      have before := skipRanges_suffix rest
      unfold takeAssignment?
      split
      · have right := (skipIf_suffix (Token.isOperator ";") _).trans
          ((takeUntil_suffix (Token.isOperator ";") 0 _).trans
            ((drop_suffix 1 (skipRanges rest)).trans before))
        exact .declared rfl rfl (.cons isName (.none right))
      · exact .none ((skipStatement_suffix 0 _).trans (before.trans (suffix_cons target rest)))
    · exact .none (skipStatement_suffix 0 _)

/-- An instance declares no name. -/
theorem takeInstance_items (moduleName : Token) (tokens : List Token) :
    ReadsItems tokens (takeInstance moduleName tokens).1 (takeInstance moduleName tokens).2 := by
  have suffix := (takeInstanceName_suffix moduleName _).trans (skipParameterValues_suffix tokens)
  have noNames : ∀ item ∈ (takeInstance moduleName tokens).1,
      item.names = [] ∧ item.assigned = [] ∧ item.constants = [] := by
    unfold takeInstance takeInstanceName
    split
    · exact List.forall_mem_nil _
    · split
      · exact List.forall_mem_singleton.mpr ⟨rfl, rfl, rfl⟩
      · exact List.forall_mem_nil _
  exact .nameless noNames suffix

/-- **An item gives names of tokens.** The first token decides what is read. -/
theorem takeItem_items (first : Token) (rest : List Token) :
    ReadsItems rest (takeItem first rest).1 (takeItem first rest).2 := by
  have parameters := (takeParameters_names rest).shorten (skipIf_suffix (Token.isOperator ";") _)
  unfold takeItem
  split
  · exact takePorts_items .input rest
  · exact takePorts_items .output rest
  · exact takePorts_items .inout rest
  · exact takeSignals_items .wire rest
  · exact takeSignals_items .reg rest
  · exact .parameters false parameters
  · exact .parameters true parameters
  · exact takeAlways_items first.line rest
  · exact takeAssign_items first.line rest
  · exact .none (skipPast_suffix _ rest)
  · exact .none (skipPast_suffix _ rest)
  · split
    · exact takeInstance_items first rest
    · exact .none (suffix_refl rest)
  · exact .none (suffix_refl rest)

/-- All items up to the end of a module give names of tokens. -/
theorem readItems_items (tokens : List Token) : ReadsItems tokens (readItems tokens) [] := by
  fun_induction readItems tokens with
  | case1 => exact .none (suffix_refl [])
  | case2 first rest => exact .none List.nil_suffix
  | case3 first rest _ ih =>
      exact ((takeItem_items first rest).append ih).mono (suffix_cons first rest)

/-- The parameters of a header have the names of tokens. -/
theorem takeHeaderParameters_items (tokens : List Token) :
    ReadsItems tokens (takeHeaderParameters tokens).1 (takeHeaderParameters tokens).2 := by
  have parameters (first : Token) (rest : List Token) (isLocal : Bool) :
      let names := takeParameters (if first.isIdentifier then first :: rest else rest)
      ReadsItems (first :: rest) [.parameters isLocal names.1] names.2 := by
    intro names
    unfold names
    split
    · exact .parameters isLocal (takeParameters_names _)
    · exact (ReadsItems.parameters isLocal (takeParameters_names rest)).mono
        (suffix_cons first rest)
  fun_induction takeHeaderParameters tokens with
  | case1 => exact .none (suffix_refl [])
  | case2 first rest => exact .none (suffix_cons first rest)
  | case3 first rest _ _ names _ following ih => exact (parameters first rest _).append ih
  | case4 first rest => exact parameters first rest _
  | case5 first rest _ _ ih => exact ih.mono (suffix_cons first rest)

/-- A list of header parameters, if there is one, gives the names of tokens. -/
theorem readHeaderParameters_items (tokens : List Token) :
    ReadsItems tokens (readHeaderParameters tokens).1 (readHeaderParameters tokens).2 := by
  unfold readHeaderParameters
  split
  · split
    · exact (takeHeaderParameters_items _).mono ((suffix_cons _ _).trans (suffix_cons _ _))
    · exact .none (suffix_refl _)
  · exact .none (suffix_refl tokens)

/-- **The items of a module give names of tokens.** -/
theorem readModule?_items {tokens : List Token} {name : String} {items : List Item}
    (read : readModule? tokens = some (name, items)) : ReadsItems tokens items [] := by
  obtain ⟨⟨found, rest⟩, header, same⟩ := Option.map_eq_some_iff.mp read
  cases same
  exact ((readHeaderParameters_items rest).append (readItems_items _)).mono
    (findHeader_suffix header)

/-- **The names of a module are texts of its tokens.** -/
theorem readModule?_names {tokens : List Token} {name : String} {items : List Item}
    (read : readModule? tokens = some (name, items)) :
    items.flatMap Item.names ⊆ textsOf Token.isIdentifier tokens ∧
      items.flatMap Item.assigned ⊆ textsOf isTarget tokens :=
  ⟨(readModule?_items read).names.names, (readModule?_items read).assigned.names⟩

/-- The names of its parameters are texts of its tokens. -/
theorem readModule?_constants {tokens : List Token} {name : String} {items : List Item}
    (read : readModule? tokens = some (name, items)) :
    items.flatMap Item.constants ⊆ textsOf Token.isIdentifier tokens :=
  (readModule?_items read).constants.names

end MiniVerilog.Source
