import MiniVerilog.Proofs.Source.Place

/-! # Reading modules does not look at places

The items of a module that are read from tokens without their places are the items
that are read from the tokens, with the lines taken out
(`MiniVerilog.Source.readModule?_bare`).
-/

namespace MiniVerilog.Source

open Token (bare)

/-- A declared name without its line. -/
def Declarator.bare (declarator : Declarator) : Declarator :=
  { declarator with line := 0 }

/-- An item without its lines. -/
def Item.bare : Item → Item
  | .ports direction isReg signed range names =>
    .ports direction isReg signed range (names.map Declarator.bare)
  | .signals kind signed range names => .signals kind signed range (names.map Declarator.bare)
  | .parameters isLocal names => .parameters isLocal (names.map Declarator.bare)
  | .assign target expression _ => .assign target expression 0
  | .always sensitivityList body _ => .always sensitivityList (bareBody body) 0
  | .instanceOf declaration => .instanceOf { declaration with line := 0 }

instance : IgnoresPlace isSignedMark := ⟨fun _ => rfl⟩

instance : IgnoresPlace endsInitial := ⟨fun _ => rfl⟩

instance : IgnoresPlace endsParameter := ⟨fun _ => rfl⟩

instance : IgnoresPlace endsConnection := ⟨fun _ => rfl⟩

instance (text : String) : IgnoresPlace (·.text == text) := ⟨fun _ => rfl⟩

instance (first second : Keyword) :
    IgnoresPlace fun token => token.isKeyword first || token.isKeyword second := ⟨fun _ => rfl⟩

/-- The names of ports after their first token: a name goes on with the list if a comma and another
name follow. -/
theorem takePortNames_cons (token : Token) (rest : List Token) :
    takePortNames (token :: rest) =
      if token.isIdentifier then
        if commaContinues rest then
          (⟨token.text, token.line, none⟩ :: (takePortNames (rest.drop 1)).1,
            (takePortNames (rest.drop 1)).2)
        else ([⟨token.text, token.line, none⟩], rest)
      else ([], token :: rest) := by
  match rest with
  | [] => simp only [takePortNames, commaContinues, Bool.false_eq_true, ↓reduceIte]
  | [_] => simp only [takePortNames, commaContinues, Bool.false_eq_true, ↓reduceIte]
  | comma :: next :: after => rw [takePortNames]; rfl

/-- The names of ports do not depend on the places of tokens but for their lines. The same holds for
every reader of items below. -/
theorem takePortNames_bare (tokens : List Token) :
    takePortNames (tokens.map bare) =
      Prod.map (List.map Declarator.bare) (List.map bare) (takePortNames tokens) := by
  induction size : tokens.length using Nat.strong_induction_on generalizing tokens with
  | _ bound ih =>
      cases tokens with
      | nil => rfl
      | cons token rest =>
          have shorter : (rest.drop 1).length < bound := by
            rw [← size, List.length_drop, List.length_cons]
            omega
          have following := ih _ shorter _ rfl
          rw [List.map_cons, takePortNames_cons, takePortNames_cons]
          simp only [isIdentifier_bare, commaContinues_bare, ← List.map_drop, following]
          split
          · split <;> rfl
          · rfl

theorem takeInitial_bare (stop : Token → Bool) [IgnoresPlace stop] (tokens : List Token) :
    takeInitial stop (tokens.map bare) = Prod.map id (List.map bare) (takeInitial stop tokens) := by
  simp only [takeInitial, headIs_bare, ← List.map_drop, takeUntil_bare, Prod.map]
  split <;> rfl

/-- The names of signals do not depend on places but for their lines. -/
theorem takeSignalNames_bare (tokens : List Token) :
    takeSignalNames (tokens.map bare) =
      Prod.map (List.map Declarator.bare) (List.map bare) (takeSignalNames tokens) := by
  fun_induction takeSignalNames tokens with
  | case1 => rw [List.map_nil, takeSignalNames]; rfl
  | case2 token rest name initial declarator continues following ih =>
      have read : takeInitial endsInitial ((skipRanges rest).map bare) =
        Prod.map id (List.map bare) initial := takeInitial_bare endsInitial (skipRanges rest)
      rw [List.map_cons, takeSignalNames]
      simp only [isIdentifier_bare, if_pos name, skipRanges_bare, read, Prod.map, ← List.map_drop,
        commaContinues_bare, if_pos continues, ih]
      rfl
  | case3 token rest name initial declarator other =>
      have read : takeInitial endsInitial ((skipRanges rest).map bare) =
        Prod.map id (List.map bare) initial := takeInitial_bare endsInitial (skipRanges rest)
      rw [List.map_cons, takeSignalNames]
      simp only [isIdentifier_bare, if_pos name, skipRanges_bare, read, Prod.map,
        commaContinues_bare, if_neg other]
      rfl
  | case4 token rest other =>
      rw [List.map_cons, takeSignalNames]
      simp only [isIdentifier_bare, if_neg other]
      rfl

/-- The names of parameters do not depend on places but for their lines. -/
theorem takeParameterNames_bare (tokens : List Token) :
    takeParameterNames (tokens.map bare) =
      Prod.map (List.map Declarator.bare) (List.map bare) (takeParameterNames tokens) := by
  fun_induction takeParameterNames tokens with
  | case1 => rw [List.map_nil, takeParameterNames]; rfl
  | case2 token rest name value declarator continues following ih =>
      have read : takeUntil endsParameter 0 ((rest.drop 1).map bare) =
        Prod.map id (List.map bare) value := takeUntil_bare endsParameter 0 (rest.drop 1)
      rw [List.map_cons, takeParameterNames]
      simp only [isIdentifier_bare, headIs_bare, if_pos name, ← List.map_drop, read, Prod.map,
        commaContinues_bare, if_pos continues, ih]
      rfl
  | case3 token rest name value declarator other =>
      have read : takeUntil endsParameter 0 ((rest.drop 1).map bare) =
        Prod.map id (List.map bare) value := takeUntil_bare endsParameter 0 (rest.drop 1)
      rw [List.map_cons, takeParameterNames]
      simp only [isIdentifier_bare, headIs_bare, if_pos name, ← List.map_drop, read, Prod.map,
        commaContinues_bare, if_neg other]
      rfl
  | case4 token rest other =>
      rw [List.map_cons, takeParameterNames, isIdentifier_bare, headIs_bare, if_neg other,
        ← List.map_cons, skipIf_bare]
      rfl

theorem takeParameters_bare (tokens : List Token) :
    takeParameters (tokens.map bare) =
      Prod.map (List.map Declarator.bare) (List.map bare) (takeParameters tokens) := by
  simp only [takeParameters, skipIf_bare, takeRange?_bare, Prod.map, takeParameterNames_bare]

/-- Whether an instance starts does not depend on places. -/
theorem startsInstance_bare (tokens : List Token) :
    startsInstance (tokens.map bare) = startsInstance tokens := by
  match tokens with
  | [] => rfl
  | [_] => rfl
  | [_, _] => rfl
  | first :: second :: third :: rest => rfl

/-- The connections of an instance do not depend on places. -/
theorem takeConnections_bare (tokens : List Token) :
    takeConnections (tokens.map bare) =
      Prod.map id (List.map bare) (takeConnections tokens) := by
  fun_induction takeConnections tokens with
  | case1 => rw [List.map_nil, takeConnections]; rfl
  | case2 token rest closing =>
      rw [List.map_cons, takeConnections, isOperator_bare, if_pos closing]
      rfl
  | case3 token rest noClosing comma ih =>
      rw [List.map_cons, takeConnections, isOperator_bare, if_neg noClosing, isOperator_bare,
        if_pos comma, ih]
  | case4 token rest noClosing noComma dot port net following ih =>
      have read : takeParenthesised ((skipIf Token.isIdentifier rest).map bare) =
          Prod.map id (List.map bare) net := takeParenthesised_bare _
      have named : ((rest.map bare).head?.filter Token.isIdentifier).map Token.text = port := by
        cases rest with
        | nil => rfl
        | cons name rest =>
            change (Option.filter Token.isIdentifier (some name.bare)).map Token.text =
              (Option.filter Token.isIdentifier (some name)).map Token.text
            rw [Option.filter_some, Option.filter_some, isIdentifier_bare]
            split <;> rfl
      rw [List.map_cons, takeConnections, isOperator_bare, if_neg noClosing, isOperator_bare,
        if_neg noComma, isOperator_bare, if_pos dot]
      simp only [skipIf_bare, read, named, Prod.map, ih]
      rfl
  | case5 token rest noClosing noComma noDot net fewer following ih =>
      have read : takeUntil endsConnection 0 ((token :: rest).map bare) =
          Prod.map id (List.map bare) net := takeUntil_bare endsConnection 0 _
      rw [List.map_cons] at read ⊢
      rw [takeConnections, isOperator_bare, if_neg noClosing, isOperator_bare, if_neg noComma,
        isOperator_bare, if_neg noDot]
      simp only [read, Prod.map, List.length_cons, List.length_map, ih]
      rw [if_pos (by exact fewer)]
      rfl
  | case6 token rest noClosing noComma noDot net stays =>
      have read : takeUntil endsConnection 0 ((token :: rest).map bare) =
          Prod.map id (List.map bare) net := takeUntil_bare endsConnection 0 _
      rw [List.map_cons] at read ⊢
      rw [takeConnections, isOperator_bare, if_neg noClosing, isOperator_bare, if_neg noComma,
        isOperator_bare, if_neg noDot]
      simp only [read, Prod.map, List.length_cons, List.length_map]
      rw [if_neg (by exact stays)]
      rfl

theorem takeConnectionList_bare (tokens : List Token) :
    takeConnectionList (tokens.map bare) =
      Prod.map id (List.map bare) (takeConnectionList tokens) := by
  simp only [takeConnectionList, headIs_bare, ← List.map_drop, takeConnections_bare, Prod.map,
    skipIf_bare, id]
  split <;> rfl

theorem skipParameterValues_bare (tokens : List Token) :
    skipParameterValues (tokens.map bare) = (skipParameterValues tokens).map bare := by
  simp only [skipParameterValues, headIs_bare, ← List.map_drop, takeParenthesised_bare, Prod.map,
    apply_ite (List.map bare)]

/-- An instance does not depend on places but for its line. -/
theorem takeInstance_bare (moduleName : Token) (tokens : List Token) :
    takeInstance moduleName.bare (tokens.map bare) =
      Prod.map (List.map Item.bare) (List.map bare) (takeInstance moduleName tokens) := by
  rw [takeInstance, takeInstance, skipParameterValues_bare]
  cases skipParameterValues tokens with
  | nil => rfl
  | cons name rest =>
      have skipped := skipStatement_bare 0 (name :: rest)
      rw [List.map_cons] at skipped ⊢
      simp only [takeInstanceName, isIdentifier_bare, takeConnectionList_bare, Prod.map,
        skipIf_bare, skipped, id]
      split <;> rfl

/-- A declaration of ports does not depend on places but for its lines. -/
theorem takePorts_bare (direction : Direction) (tokens : List Token) :
    takePorts direction (tokens.map bare) =
      Prod.map Item.bare (List.map bare) (takePorts direction tokens) := by
  simp only [takePorts, headIs_bare, skipIf_bare, takeRange?_bare, takePortNames_bare, Prod.map, id]
  rfl

/-- A declaration of signals does not depend on places but for its lines. -/
theorem takeSignals_bare (kind : SignalKind) (tokens : List Token) :
    takeSignals kind (tokens.map bare) =
      Prod.map Item.bare (List.map bare) (takeSignals kind tokens) := by
  simp only [takeSignals, headIs_bare, skipIf_bare, takeRange?_bare, takeSignalNames_bare,
    Prod.map, id]
  rfl

/-- A continuous assignment depends on places only in its line, which the caller gives. -/
theorem takeAssign_bare (line : Nat) (tokens : List Token) :
    takeAssign 0 (tokens.map bare) =
      Prod.map (List.map Item.bare) (List.map bare) (takeAssign line tokens) := by
  cases tokens with
  | nil => rfl
  | cons target rest =>
      have skipped := skipStatement_bare 0 (target :: rest)
      rw [List.map_cons] at skipped ⊢
      simp only [takeAssign, isIdentifier_bare, skipRanges_bare, takeAssignment?, headIs_bare,
        ← List.map_drop, takeUntil_bare, skipIf_bare, skipStatement_bare, skipped, Prod.map, id]
      split
      · split <;> rfl
      · rfl

/-- An event control does not depend on places. -/
theorem takeEventControl_bare (tokens : List Token) :
    takeEventControl (tokens.map bare) =
      Prod.map id (List.map bare) (takeEventControl tokens) := by
  have events (tokens : List Token) :
      takeEvents (tokens.map bare) = Prod.map id (List.map bare) (takeEvents tokens) := by
    cases tokens with
    | nil => rfl
    | cons first rest =>
        simp only [List.map_cons, takeEvents, isOperator_bare, isIdentifier_bare, takeUntil_bare,
          skipIf_bare, Prod.map, id]
        split
        · rfl
        · split
          · rfl
          · split <;> rfl
  simp only [takeEventControl, headIs_bare, ← List.map_drop, events]
  split <;> rfl

/-- An always block depends on places only in its line, which the caller gives, and in the lines of
its statements. -/
theorem takeAlways_bare (line : Nat) (tokens : List Token) :
    takeAlways 0 (tokens.map bare) =
      Prod.map Item.bare (List.map bare) (takeAlways line tokens) := by
  have reading (line : Nat) (tokens : List Token) : takeAlways line tokens =
      (.always (takeEventControl tokens).1 (takeStatement (takeEventControl tokens).2).1 line,
        (takeStatement (takeEventControl tokens).2).2) := rfl
  simp only [reading, takeEventControl_bare, Prod.map, (readsBare _).statement]
  rfl

instance : IgnoresPlace endsModule := ⟨fun _ => rfl⟩

/-- **An item does not depend on the places of tokens** but for its lines. -/
theorem takeItem_bare (first : Token) (rest : List Token) :
    takeItem first.bare (rest.map bare) =
      Prod.map (List.map Item.bare) (List.map bare) (takeItem first rest) := by
  have starts := startsInstance_bare (first :: rest)
  rw [List.map_cons] at starts
  unfold takeItem
  rw [Token.kind_bare]
  cases first.kind with
  | keyword word =>
      cases word with
      | input | output | inout => simp only [takePorts_bare]; rfl
      | wire | reg => simp only [takeSignals_bare]; rfl
      | parameter | localparam => simp only [takeParameters_bare, Prod.map, skipIf_bare]; rfl
      | always =>
          change ([(takeAlways 0 (rest.map bare)).1], (takeAlways 0 (rest.map bare)).2) = _
          rw [takeAlways_bare first.line]
          rfl
      | assign => exact takeAssign_bare first.line rest
      | function | task => simp only [skipPast_bare]; rfl
      | _ => rfl
  | identifier =>
      dsimp only
      rw [starts]
      split
      · exact takeInstance_bare first rest
      · rfl
  | _ => rfl

/-- All items of a module do not depend on places but for their lines. -/
theorem readItems_bare (tokens : List Token) :
    readItems (tokens.map bare) = (readItems tokens).map Item.bare := by
  fun_induction readItems tokens with
  | case1 => rw [List.map_nil, readItems]; rfl
  | case2 first rest ends =>
      have same : endsModule first.bare = endsModule first := IgnoresPlace.bare first
      rw [List.map_cons, readItems, same, if_pos ends]
      rfl
  | case3 first rest goesOn ih =>
      have same : endsModule first.bare = endsModule first := IgnoresPlace.bare first
      rw [List.map_cons, readItems, same, if_neg goesOn, takeItem_bare, List.map_append, ← ih]
      rfl

/-- The header of a module is found wherever its tokens stand. -/
theorem findHeader_bare (tokens : List Token) :
    findHeader (tokens.map bare) = (findHeader tokens).map (Prod.map id (List.map bare)) := by
  fun_induction findHeader tokens with
  | case1 opening name rest header =>
      simp only [List.map_cons, findHeader, isKeyword_bare, isIdentifier_bare, if_pos header]
      rfl
  | case2 opening name rest header ih =>
      simp only [List.map_cons, findHeader, isKeyword_bare, isIdentifier_bare, if_neg header]
      exact ih
  | case3 tokens short =>
      match tokens with
      | [] => rfl
      | [_] => rfl
      | opening :: name :: rest => exact (short opening name rest rfl).elim

/-- The parameters of a header do not depend on places but for their lines. -/
theorem takeHeaderParameters_bare (tokens : List Token) :
    takeHeaderParameters (tokens.map bare) =
      Prod.map (List.map Item.bare) (List.map bare) (takeHeaderParameters tokens) := by
  have starts (first : Token) (rest : List Token) :
      startsParameters first.bare (rest.map bare) = startsParameters first rest := by
    simp only [startsParameters, isKeyword_bare, isIdentifier_bare, headIs_bare]
  have names (first : Token) (rest : List Token) :
      takeParameters (if first.isIdentifier then first.bare :: rest.map bare else rest.map bare) =
        Prod.map (List.map Declarator.bare) (List.map bare)
          (takeParameters (if first.isIdentifier then first :: rest else rest)) := by
    rw [← takeParameters_bare]
    split <;> rfl
  fun_induction takeHeaderParameters tokens with
  | case1 => rw [List.map_nil, takeHeaderParameters]; rfl
  | case2 first rest closing =>
      rw [List.map_cons, takeHeaderParameters, isOperator_bare, if_pos closing]
      rfl
  | case3 first rest goesOn parameters read fewer following ih =>
      have listed : takeParameters (if first.isIdentifier then first.bare :: rest.map bare
          else rest.map bare) = Prod.map (List.map Declarator.bare) (List.map bare) read :=
        names first rest
      rw [List.map_cons, takeHeaderParameters, isOperator_bare, if_neg goesOn, starts,
        if_pos parameters]
      simp only [isIdentifier_bare, isKeyword_bare, listed, Prod.map, List.length_cons,
        List.length_map]
      rw [if_pos (by exact fewer), ih]
      rfl
  | case4 first rest goesOn parameters read stays =>
      have listed : takeParameters (if first.isIdentifier then first.bare :: rest.map bare
          else rest.map bare) = Prod.map (List.map Declarator.bare) (List.map bare) read :=
        names first rest
      rw [List.map_cons, takeHeaderParameters, isOperator_bare, if_neg goesOn, starts,
        if_pos parameters]
      simp only [isIdentifier_bare, isKeyword_bare, listed, Prod.map, List.length_cons,
        List.length_map]
      rw [if_neg (by exact stays)]
      rfl
  | case5 first rest goesOn other ih =>
      rw [List.map_cons, takeHeaderParameters, isOperator_bare, if_neg goesOn, starts,
        if_neg other, ih]

/-- A list of header parameters is found and read without regard to places. -/
theorem readHeaderParameters_bare (tokens : List Token) :
    readHeaderParameters (tokens.map bare) =
      Prod.map (List.map Item.bare) (List.map bare) (readHeaderParameters tokens) := by
  match tokens with
  | [] => rfl
  | [_] => rfl
  | hash :: opening :: rest =>
      simp only [List.map_cons, readHeaderParameters, isOperator_bare, takeHeaderParameters_bare]
      split <;> rfl

/-- **Reading a module does not look at places.** -/
theorem readModule?_bare (tokens : List Token) :
    readModule? (tokens.map bare) =
      (readModule? tokens).map (Prod.map id (List.map Item.bare)) := by
  simp only [readModule?, findHeader_bare, Option.map_map]
  congr 1
  funext ⟨name, rest⟩
  simp only [Function.comp_apply, Prod.map, readHeaderParameters_bare, readItems_bare,
    List.map_append, id]

end MiniVerilog.Source
