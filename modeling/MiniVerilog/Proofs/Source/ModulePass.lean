import MiniVerilog.Proofs.Source.Names
import MiniVerilog.Proofs.Source.NamesPass
import MiniVerilog.Proofs.Source.ProcedurePass

/-! # Passes over a module

The search for the header, the parameters of the header and the items of a module are told by rules
over cursors, like procedural code. There is a pass from the first token, and every such pass reads
what the reader of modules reads and goes forward (`MiniVerilog.Source.readModule?_advances`).
-/

namespace MiniVerilog.Source

open List (suffix_refl suffix_cons drop_suffix)

variable {tokens : List Token}

/-- What tells a declaration of names: the loop over the names with what is read behind a name and
the reader of the names, the tokens from the names on, the item, and what is left when the
declaration is closed. -/
structure NamesDeclaration where
  loop : Loop
  value : List Token → Option (Option (List String) × List Token)
  take : List Token → List Declarator × List Token
  reads : ReadsList value take
  names : List Token → List Token
  names_suffix : ∀ rest, names rest <:+ rest
  item : List Token → List Declarator → Item
  close : List Token → List Token
  close_suffix : ∀ rest, close rest <:+ rest

/-- The tokens of a declaration of parameters from the names on. -/
def parameterNames (tokens : List Token) : List Token :=
  (takeRange? (skipIf (·.text == "integer") (skipIf isSignedMark tokens))).2

theorem parameterNames_suffix (tokens : List Token) : parameterNames tokens <:+ tokens :=
  (takeRange?_suffix _).trans ((skipIf_suffix _ _).trans (skipIf_suffix _ _))

namespace NamesDeclaration

/-- A declaration of ports with a direction. -/
def ports (direction : Direction) : NamesDeclaration where
  loop := .portNames
  value := portValue
  take := takePortNames
  reads := readsList_ports
  names rest := (takeRange? (skipIf isSignedMark
    (skipIf (fun token => token.isKeyword .reg || token.isKeyword .wire) rest))).2
  names_suffix rest := (takeRange?_suffix _).trans
    ((skipIf_suffix isSignedMark _).trans (skipIf_suffix _ rest))
  item rest names :=
    let typed := skipIf (fun token => token.isKeyword .reg || token.isKeyword .wire) rest
    .ports direction (headIs (Token.isKeyword .reg) rest) (headIs isSignedMark typed)
      (takeRange? (skipIf isSignedMark typed)).1 names
  close := id
  close_suffix := suffix_refl

/-- A declaration of signals of a kind. -/
def signals (kind : SignalKind) : NamesDeclaration where
  loop := .signalNames
  value := signalValue
  take := takeSignalNames
  reads := readsList_signals
  names rest := (takeRange? (skipIf isSignedMark rest)).2
  names_suffix rest := (takeRange?_suffix _).trans (skipIf_suffix isSignedMark rest)
  item rest names := .signals kind (headIs isSignedMark rest)
    (takeRange? (skipIf isSignedMark rest)).1 names
  close := skipIf (Token.isOperator ";")
  close_suffix := skipIf_suffix _

/-- A declaration of parameters. -/
def parameters (isLocal : Bool) : NamesDeclaration where
  loop := .parameterNames
  value := parameterValue
  take := takeParameterNames
  reads := readsList_parameters
  names := parameterNames
  names_suffix := parameterNames_suffix
  item _ names := .parameters isLocal names
  close := skipIf (Token.isOperator ";")
  close_suffix := skipIf_suffix _

end NamesDeclaration

/-- What the first token of an item opens. An item is plain if no loop reads it. -/
inductive ItemOpening where
  | names (declaration : NamesDeclaration)
  | always
  | connections (name : Token) (rest : List Token)
  | plain

/-- What an instance opens, by the tokens behind the name of its module. -/
def instanceOpening (rest : List Token) : ItemOpening :=
  match skipParameterValues rest with
  | name :: opening :: others =>
    if name.isIdentifier && opening.isOperator "(" then .connections name others else .plain
  | _ => .plain

/-- What the first token of an item opens, by the tokens behind it. -/
def itemOpening (first : Token) (rest : List Token) : ItemOpening :=
  match first.kind with
  | .keyword .input => .names (.ports .input)
  | .keyword .output => .names (.ports .output)
  | .keyword .inout => .names (.ports .inout)
  | .keyword .wire => .names (.signals .wire)
  | .keyword .reg => .names (.signals .reg)
  | .keyword .parameter => .names (.parameters false)
  | .keyword .localparam => .names (.parameters true)
  | .keyword .always => .always
  | .identifier => if startsInstance (first :: rest) then instanceOpening rest else .plain
  | _ => .plain

/-- **An item is read as what its first token opens.** -/
theorem takeItem_opening (first : Token) (rest : List Token) :
    takeItem first rest =
      match itemOpening first rest with
      | .names declaration =>
        let names := declaration.take (declaration.names rest)
        ([declaration.item rest names.1], declaration.close names.2)
      | .always => ([(takeAlways first.line rest).1], (takeAlways first.line rest).2)
      | .connections name others =>
        ([.instanceOf ⟨first.text, name.text, (takeConnections others).1, first.line⟩],
          skipIf (Token.isOperator ";") (skipIf (Token.isOperator ")") (takeConnections others).2))
      | .plain => takeItem first rest := by
  rw [takeItem, itemOpening]
  cases first.kind with
  | keyword word =>
      cases word with
      | _ => rfl
  | identifier =>
      dsimp only
      by_cases starts : startsInstance (first :: rest) = true
      · rw [if_pos starts, if_pos starts]
        fun_cases instanceOpening rest with
        | case1 name opening others values list =>
            obtain ⟨isName, opens⟩ := Bool.and_eq_true_iff.mp list
            have opens : headIs (Token.isOperator "(") (opening :: others) = true := opens
            rw [takeInstance, values, takeInstanceName, if_pos isName, takeConnectionList,
              if_pos opens]
            rfl
        | case2 => rfl
        | case3 => rfl
      · rw [if_neg starts, if_neg starts]
  | _ => rfl

/-- The connections of an instance are among the tokens behind the name of its module. -/
theorem suffix_of_instanceOpening {rest others : List Token} {name : Token}
    (opens : instanceOpening rest = .connections name others) : others <:+ rest := by
  unfold instanceOpening at opens
  split at opens
  · rename_i read
    split at opens
    · cases opens
      have values := skipParameterValues_suffix rest
      rw [read] at values
      exact ((suffix_cons _ _).trans (suffix_cons _ _)).trans values
    · cases opens
  · cases opens

/-- The connections that an item opens are among the tokens behind its first one. -/
theorem suffix_of_itemOpening {first name : Token} {rest others : List Token}
    (opens : itemOpening first rest = .connections name others) : others <:+ rest := by
  unfold itemOpening at opens
  split at opens
  case h_9 =>
    split at opens
    · exact suffix_of_instanceOpening opens
    · cases opens
  all_goals cases opens

/-- A pass over one item. -/
inductive ItemPass (tokens : List Token) : Nat → List Item → List Moment → Nat → Prop
  | names {start next middle : Nat} {first : Token} {rest : List Token}
    {declaration : NamesDeclaration} {names : List Declarator} {trail : List Moment}
    (here : tokens.drop start = first :: rest)
    (opens : itemOpening first rest = .names declaration)
    (enters : next = behind tokens (start + 1) (declaration.names rest))
    (rounds : Rounds declaration.loop (nameRound declaration.value tokens) next names trail
      middle) :
    ItemPass tokens start [declaration.item rest names] trail
      (behind tokens middle (declaration.close (tokens.drop middle)))
  | always {start next stop : Nat} {first : Token} {rest : List Token} {body : List Procedure}
    {trail : List Moment} (here : tokens.drop start = first :: rest)
    (opens : itemOpening first rest = .always)
    (enters : next = behind tokens (start + 1) (takeEventControl rest).2)
    (statement : StatementPass tokens next body trail stop) :
    ItemPass tokens start [.always (takeEventControl rest).1 body first.line] trail stop
  | connections {start next middle : Nat} {first name : Token} {rest others : List Token}
    {connections : List (String × String)} {trail : List Moment}
    (here : tokens.drop start = first :: rest)
    (opens : itemOpening first rest = .connections name others)
    (enters : next = behind tokens (start + 1) others)
    (rounds : Rounds .connections (connectionRound tokens) next connections trail middle) :
    ItemPass tokens start [.instanceOf ⟨first.text, name.text, connections, first.line⟩] trail
      (behind tokens middle
        (skipIf (Token.isOperator ";") (skipIf (Token.isOperator ")") (tokens.drop middle))))
  | plain {start : Nat} {first : Token} {rest : List Token}
    (here : tokens.drop start = first :: rest) (opens : itemOpening first rest = .plain) :
    ItemPass tokens start (takeItem first rest).1 []
      (behind tokens (start + 1) (takeItem first rest).2)

/-- A pass over the rounds that read the items of a module. -/
inductive ItemsPass (tokens : List Token) : Nat → List Item → List Moment → Nat → Prop
  | leaves {start : Nat} (ended : tokens.drop start = [] ∨
      headIs endsModule (tokens.drop start) = true) :
    ItemsPass tokens start [] [.round .module start start true] start
  | next {start middle stop : Nat} {first : Token} {rest : List Token} {items others : List Item}
    {trail after : List Moment} (here : tokens.drop start = first :: rest)
    (within : endsModule first = false) (item : ItemPass tokens start items trail middle)
    (following : ItemsPass tokens middle others after stop) :
    ItemsPass tokens start (items ++ others)
      (trail ++ .round .module start middle false :: after) stop

/-- A pass over the rounds that read the parameters of a header. The round that leaves the loop
takes nothing, and a closing parenthesis is taken behind the loop. -/
inductive HeaderParametersPass (tokens : List Token) :
    Nat → List Item → List Moment → Nat → Prop
  | leaves {start : Nat} (ended : tokens.drop start = []) :
    HeaderParametersPass tokens start [] [.round .headerParameters start start true] start
  | closes {start : Nat} (closed : headIs (Token.isOperator ")") (tokens.drop start) = true) :
    HeaderParametersPass tokens start [] [.round .headerParameters start start true] (start + 1)
  | list {start entered next middle stop : Nat} {first : Token} {rest : List Token}
    {names : List Declarator} {items : List Item} {trail after : List Moment}
    (here : tokens.drop start = first :: rest) (open_ : first.isOperator ")" = false)
    (starts : startsParameters first rest = true)
    (word : entered = if first.isIdentifier then start else start + 1)
    (enters : next = behind tokens entered (parameterNames (tokens.drop entered)))
    (rounds : Rounds .parameterNames (nameRound parameterValue tokens) next names trail middle)
    (following : HeaderParametersPass tokens middle items after stop) :
    HeaderParametersPass tokens start (.parameters (first.isKeyword .localparam) names :: items)
      (trail ++ .round .headerParameters start middle false :: after) stop
  | skips {start stop : Nat} {first : Token} {rest : List Token} {items : List Item}
    {after : List Moment} (here : tokens.drop start = first :: rest)
    (open_ : first.isOperator ")" = false) (other : startsParameters first rest = false)
    (following : HeaderParametersPass tokens (start + 1) items after stop) :
    HeaderParametersPass tokens start items
      (.round .headerParameters start (start + 1) false :: after) stop

/-- The parameters of a header start here. -/
def startsHeaderParameters : List Token → Bool
  | hash :: opening :: _ => hash.isOperator "#" && opening.isOperator "("
  | _ => false

/-- A pass over the parameters of a header, if it has a list of them. -/
inductive HeaderPass (tokens : List Token) : Nat → List Item → List Moment → Nat → Prop
  | absent {start : Nat} (absent : startsHeaderParameters (tokens.drop start) = false) :
    HeaderPass tokens start [] [] start
  | list {start stop : Nat} {items : List Item} {trail : List Moment}
    (starts : startsHeaderParameters (tokens.drop start) = true)
    (inside : HeaderParametersPass tokens (start + 2) items trail stop) :
    HeaderPass tokens start items trail stop

/-- A pass over the rounds that look for the header of a module and read the module. -/
inductive ModulePass (tokens : List Token) :
    Nat → Option (String × List Item) → List Moment → Nat → Prop
  | absent {start : Nat} (ended : tokens.drop start = []) :
    ModulePass tokens start none [.round .module start start true] start
  | skips {start stop : Nat} {first : Token} {rest : List Token}
    {read : Option (String × List Item)} {after : List Moment}
    (here : tokens.drop start = first :: rest)
    (other : (first.isKeyword .module_ && headIs Token.isIdentifier rest) = false)
    (following : ModulePass tokens (start + 1) read after stop) :
    ModulePass tokens start read (.round .module start (start + 1) false :: after) stop
  | found {start middle stop : Nat} {first name : Token} {rest : List Token}
    {parameters items : List Item} {trail after : List Moment}
    (here : tokens.drop start = first :: name :: rest)
    (opens : first.isKeyword .module_ = true) (isName : name.isIdentifier = true)
    (header : HeaderPass tokens (start + 2) parameters trail middle)
    (following : ItemsPass tokens middle items after stop) :
    ModulePass tokens start (some (name.text, parameters ++ items))
      (trail ++ .round .module start middle false :: after) stop

/-- Every item takes its first token. -/
theorem ItemPass.forward {start stop : Nat} {items : List Item} {trail : List Moment}
    (pass : ItemPass tokens start items trail stop) :
    Forward tokens start trail stop ∧ start < stop := by
  cases pass with
  | @names next middle _ _ declaration _ _ here _ enters rounds =>
      have entry := Takes.of_eq_behind enters here (declaration.names_suffix _)
      have list := rounds.forward (nameRound_unfolds declaration.reads tokens)
      exact entry.forward list (.behind tokens middle _)
  | always here _ enters statement =>
      have entry := Takes.of_eq_behind enters here (takeEventControl_suffix _)
      exact entry.forward statement.forward (.refl tokens stop)
  | @connections next middle _ _ _ _ _ _ here opens enters rounds =>
      have entry := Takes.of_eq_behind enters here (suffix_of_itemOpening opens)
      have list := rounds.forward (connectionRound_unfolds tokens)
      exact entry.forward list (.behind tokens middle _)
  | @plain first rest here _ =>
      have item := takes_behind here (takeItem_items first rest).names.suffix
      exact ⟨item.moves, item.later⟩

/-- **The rounds that read items go forward**, each over a token at least. -/
theorem ItemsPass.forward {start stop : Nat} {items : List Item} {trail : List Moment}
    (pass : ItemsPass tokens start items trail stop) : Forward tokens start trail stop := by
  induction pass with
  | leaves => exact ⟨.refl tokens _, .leaving (Nat.le_refl _), .refl tokens _⟩
  | next here within item following ih =>
      obtain ⟨forward, later⟩ := item.forward
      exact forward.append ⟨.refl tokens _, .taking later, ih⟩

/-- A list of parameters in a header takes a token: the word before it, or its first name, because
a name is no range and a type before the names is a token as well. -/
theorem lt_of_headerList {start entered next middle : Nat} {first : Token} {rest : List Token}
    {names : List Declarator} {trail : List Moment} (here : tokens.drop start = first :: rest)
    (word : entered = if first.isIdentifier then start else start + 1)
    (enters : next = behind tokens entered (parameterNames (tokens.drop entered)))
    (rounds : Rounds .parameterNames (nameRound parameterValue tokens) next names trail middle) :
    Forward tokens start trail middle ∧ start < middle := by
  have unfolds := nameRound_unfolds readsList_parameters tokens
  have list := rounds.forward unfolds
  have typed := Moves.of_eq_behind enters
  by_cases isName : first.isIdentifier = true
  · rw [if_pos isName] at word
    subst word
    refine ⟨list.after typed, ?_⟩
    rcases Nat.eq_or_lt_of_le typed.le with same | later
    · subst same
      exact rounds.lt_of_first unfolds (lt_stop_nameRound parameterValue here isName)
    · exact Nat.lt_of_lt_of_le later list.moves.le
  · rw [if_neg isName] at word
    subst word
    have entry := (Moves.succ here).trans typed
    exact ⟨list.after entry, Nat.lt_of_lt_of_le typed.le list.moves.le⟩

/-- **The rounds that read header parameters go forward.** The last one leaves the loop and may take
the closing parenthesis. -/
theorem HeaderParametersPass.forward {start stop : Nat} {items : List Item} {trail : List Moment}
    (pass : HeaderParametersPass tokens start items trail stop) :
    Forward tokens start trail stop := by
  induction pass with
  | leaves => exact ⟨.refl tokens _, .leaving (Nat.le_refl _), .refl tokens _⟩
  | closes closed =>
      exact ⟨.refl tokens _, .leaving (Nat.le_refl _), .succ_of_headIs closed⟩
  | list here _ _ word enters rounds following ih =>
      obtain ⟨forward, later⟩ := lt_of_headerList here word enters rounds
      exact forward.append ⟨.refl tokens _, .taking later, ih⟩
  | skips here _ _ following ih =>
      exact ⟨.succ here, .taking (Nat.lt_succ_self _), ih⟩

/-- A list of header parameters starts with two tokens. -/
theorem exists_of_startsHeaderParameters {tokens : List Token}
    (starts : startsHeaderParameters tokens = true) :
    ∃ hash opening rest, tokens = hash :: opening :: rest := by
  unfold startsHeaderParameters at starts
  split at starts
  · exact ⟨_, _, _, rfl⟩
  · cases starts

/-- A pass over header parameters goes forward, if there is a list of them or not. -/
theorem HeaderPass.forward {start stop : Nat} {items : List Item} {trail : List Moment}
    (pass : HeaderPass tokens start items trail stop) : Forward tokens start trail stop := by
  cases pass with
  | absent => exact .refl tokens start
  | list starts inside =>
      obtain ⟨hash, opening, rest, here⟩ := exists_of_startsHeaderParameters starts
      exact inside.forward.after (.two here)

/-- **A pass over a module goes forward**, from the search for its header to its end. -/
theorem ModulePass.forward {start stop : Nat} {read : Option (String × List Item)}
    {trail : List Moment} (pass : ModulePass tokens start read trail stop) :
    Forward tokens start trail stop := by
  induction pass with
  | absent => exact ⟨.refl tokens _, .leaving (Nat.le_refl _), .refl tokens _⟩
  | skips here _ following ih =>
      exact ⟨.succ here, .taking (Nat.lt_succ_self _), ih⟩
  | found here _ _ header following =>
      have entry := header.forward.after (.two here)
      have later := Nat.lt_of_lt_of_le (Nat.lt_add_of_pos_right Nat.two_pos) header.forward.moves.le
      exact entry.append ⟨.refl tokens _, .taking later, following.forward⟩

/-- An always block is an event control and a statement. -/
theorem takeAlways_eq (line : Nat) (tokens : List Token) :
    takeAlways line tokens =
      let body := takeStatement (takeEventControl tokens).2
      (.always (takeEventControl tokens).1 body.1 line, body.2) :=
  rfl

/-- **A pass over an item reads what the reader of items reads**, and stops where it stops. There is
one case for each thing that the first token can open. -/
theorem ItemPass.reads {start stop : Nat} {first : Token} {rest : List Token} {items : List Item}
    {trail : List Moment} (here : tokens.drop start = first :: rest)
    (pass : ItemPass tokens start items trail stop) :
    takeItem first rest = (items, tokens.drop stop) := by
  cases pass with
  | @names next middle _ _ declaration _ _ same opens enters rounds =>
      cases here.symm.trans same
      have entry := Takes.of_eq_behind enters here (declaration.names_suffix rest)
      have names := rounds.reads (nameRound_unfolds declaration.reads tokens)
      rw [entry.left] at names
      rw [takeItem_opening, opens, drop_behind (declaration.close_suffix _)]
      dsimp only
      rw [names]
  | always same opens enters statement =>
      cases here.symm.trans same
      have entry := Takes.of_eq_behind enters here (takeEventControl_suffix rest)
      have body := statement.reads
      rw [entry.left] at body
      rw [takeItem_opening, opens]
      dsimp only
      rw [takeAlways_eq, body]
  | @connections next middle _ name _ others _ _ same opens enters rounds =>
      cases here.symm.trans same
      have entry := Takes.of_eq_behind enters here (suffix_of_itemOpening opens)
      have list := rounds.reads (connectionRound_unfolds tokens)
      rw [entry.left] at list
      rw [takeItem_opening, opens, drop_behind ((skipIf_suffix _ _).trans (skipIf_suffix _ _))]
      dsimp only
      rw [list]
  | plain same opens =>
      cases here.symm.trans same
      rw [(takes_behind here (takeItem_items first rest).names.suffix).left]

/-- A pass over items reads what the reader of all items reads. -/
theorem ItemsPass.reads {start stop : Nat} {items : List Item} {trail : List Moment}
    (pass : ItemsPass tokens start items trail stop) :
    readItems (tokens.drop start) = items := by
  induction pass with
  | leaves ended =>
      rcases ended with ended | ended
      · rw [ended, readItems]
      · obtain ⟨first, rest, here⟩ := exists_cons_of_headIs ended
        rw [here] at ended ⊢
        rw [readItems]
        exact if_pos ended
  | next here within item following ih =>
      rw [here, readItems, if_neg (Bool.eq_false_iff.mp within), item.reads here, ih]

/-- The names of a list of parameters in a header. -/
theorem headerList_reads {start entered next middle : Nat} {first : Token} {rest : List Token}
    {names : List Declarator} {trail : List Moment} (here : tokens.drop start = first :: rest)
    (word : entered = if first.isIdentifier then start else start + 1)
    (enters : next = behind tokens entered (parameterNames (tokens.drop entered)))
    (rounds : Rounds .parameterNames (nameRound parameterValue tokens) next names trail middle) :
    takeParameters (if first.isIdentifier then first :: rest else rest) =
      (names, tokens.drop middle) := by
  have read := rounds.reads (nameRound_unfolds readsList_parameters tokens)
  rw [enters, drop_behind (parameterNames_suffix _)] at read
  have left : tokens.drop entered = if first.isIdentifier then first :: rest else rest := by
    rw [word]
    split
    · exact here
    · exact drop_succ here
  rw [← left]
  exact read

/-- A pass over header parameters reads what their reader reads. -/
theorem HeaderParametersPass.reads {start stop : Nat} {items : List Item} {trail : List Moment}
    (pass : HeaderParametersPass tokens start items trail stop) :
    takeHeaderParameters (tokens.drop start) = (items, tokens.drop stop) := by
  induction pass with
  | leaves ended => rw [ended, takeHeaderParameters]
  | closes closed =>
      obtain ⟨first, rest, here⟩ := exists_cons_of_headIs closed
      rw [here] at closed
      rw [here, takeHeaderParameters, drop_succ here]
      exact if_pos closed
  | @list start entered next middle stop first rest _ _ _ _ here open_ starts word enters rounds
      following ih =>
      have later := (lt_of_headerList here word enters rounds).2
      have inside := lt_length_of_drop here
      have names := headerList_reads here word enters rounds
      have fewer : (tokens.drop middle).length < (first :: rest).length := by
        rw [← here, List.length_drop, List.length_drop]
        omega
      rw [here, takeHeaderParameters, if_neg (Bool.eq_false_iff.mp open_), if_pos starts]
      dsimp only
      rw [names, if_pos fewer, ih]
  | skips here open_ other following ih =>
      rw [drop_succ here] at ih
      rw [here, takeHeaderParameters, if_neg (Bool.eq_false_iff.mp open_),
        if_neg (Bool.eq_false_iff.mp other), ih]

/-- Header parameters are read behind `#(`, and nothing is read if they do not start so. -/
theorem readHeaderParameters_eq (tokens : List Token) :
    readHeaderParameters tokens =
      if startsHeaderParameters tokens then takeHeaderParameters (tokens.drop 2)
      else ([], tokens) := by
  cases tokens with
  | nil => rfl
  | cons hash rest =>
      cases rest with
      | nil => rfl
      | cons opening rest => rfl

/-- A pass over a header that may have parameters reads what its reader reads. -/
theorem HeaderPass.reads {start stop : Nat} {items : List Item} {trail : List Moment}
    (pass : HeaderPass tokens start items trail stop) :
    readHeaderParameters (tokens.drop start) = (items, tokens.drop stop) := by
  rw [readHeaderParameters_eq]
  cases pass with
  | absent absent => exact if_neg (Bool.eq_false_iff.mp absent)
  | list starts inside => rw [if_pos starts, List.drop_drop, inside.reads]

/-- A token that starts no header is passed over. -/
theorem readModule?_cons {first : Token} {rest : List Token}
    (other : (first.isKeyword .module_ && headIs Token.isIdentifier rest) = false) :
    readModule? (first :: rest) = readModule? rest := by
  cases rest with
  | nil => rfl
  | cons name rest =>
      have other : ¬(first.isKeyword .module_ && name.isIdentifier) = true :=
        Bool.eq_false_iff.mp other
      rw [readModule?, findHeader, if_neg other]
      rfl

/-- **A pass over a module reads what the reader of modules reads.** -/
theorem ModulePass.reads {start stop : Nat} {read : Option (String × List Item)}
    {trail : List Moment} (pass : ModulePass tokens start read trail stop) :
    readModule? (tokens.drop start) = read := by
  induction pass with
  | absent ended =>
      rw [ended]
      rfl
  | skips here other following ih => rw [here, readModule?_cons other, ← drop_succ here, ih]
  | found here opens isName header following =>
      have parameters := header.reads
      rw [drop_succ (drop_succ here)] at parameters
      rw [here, readModule?, findHeader, if_pos (Bool.and_eq_true_iff.mpr ⟨opens, isName⟩)]
      dsimp only [Option.map_some]
      rw [parameters, following.reads]

/-- There is a pass over the item at every cursor with a token. -/
theorem exists_itemPass {start : Nat} {first : Token} {rest : List Token}
    (here : tokens.drop start = first :: rest) :
    ∃ items trail stop, ItemPass tokens start items trail stop := by
  cases opens : itemOpening first rest with
  | names declaration =>
      obtain ⟨names, trail, middle, rounds⟩ := exists_rounds
        (nameRound_unfolds declaration.reads tokens) declaration.loop
        (behind tokens (start + 1) (declaration.names rest))
      exact ⟨_, _, _, .names here opens rfl rounds⟩
  | always =>
      obtain ⟨body, trail, stop, statement⟩ := (hasPasses tokens
        (behind tokens (start + 1) (takeEventControl rest).2)).statement
      exact ⟨_, _, _, .always here opens rfl statement⟩
  | connections name others =>
      obtain ⟨connections, trail, middle, rounds⟩ := exists_rounds
        (connectionRound_unfolds tokens) .connections (behind tokens (start + 1) others)
      exact ⟨_, _, _, .connections here opens rfl rounds⟩
  | plain => exact ⟨_, _, _, .plain here opens⟩

/-- There is a pass over the items from every cursor. The induction is on the number of tokens that
are left. -/
theorem exists_itemsPass (tokens : List Token) (start : Nat) :
    ∃ items trail stop, ItemsPass tokens start items trail stop := by
  induction size : tokens.length - start using Nat.strong_induction_on generalizing start with
  | _ left ih =>
      cases here : tokens.drop start with
      | nil => exact ⟨_, _, _, .leaves (.inl here)⟩
      | cons first rest =>
          cases within : endsModule first with
          | true => exact ⟨_, _, _, .leaves (.inr (by rw [here]; exact within))⟩
          | false =>
              have inside := lt_length_of_drop here
              obtain ⟨items, trail, middle, item⟩ := exists_itemPass here
              have later := item.forward.2
              obtain ⟨others, after, stop, following⟩ := ih _ (by omega) middle rfl
              exact ⟨_, _, _, .next here within item following⟩

/-- There is a pass over header parameters from every cursor. The induction is on the number of
tokens that are left. -/
theorem exists_headerParametersPass (tokens : List Token) (start : Nat) :
    ∃ items trail stop, HeaderParametersPass tokens start items trail stop := by
  induction size : tokens.length - start using Nat.strong_induction_on generalizing start with
  | _ left ih =>
      cases here : tokens.drop start with
      | nil => exact ⟨_, _, _, .leaves here⟩
      | cons first rest =>
          have inside := lt_length_of_drop here
          cases open_ : first.isOperator ")" with
          | true => exact ⟨_, _, _, .closes (by rw [here]; exact open_)⟩
          | false =>
              cases starts : startsParameters first rest with
              | true =>
                  obtain ⟨names, trail, middle, rounds⟩ := exists_rounds
                    (nameRound_unfolds readsList_parameters tokens) .parameterNames
                    (behind tokens (if first.isIdentifier then start else start + 1)
                      (parameterNames (tokens.drop
                        (if first.isIdentifier then start else start + 1))))
                  have later := (lt_of_headerList here rfl rfl rounds).2
                  obtain ⟨items, after, stop, following⟩ := ih _ (by omega) middle rfl
                  exact ⟨_, _, _, .list here open_ starts rfl rfl rounds following⟩
              | false =>
                  obtain ⟨items, after, stop, following⟩ := ih _ (by omega) (start + 1) rfl
                  exact ⟨_, _, _, .skips here open_ starts following⟩

/-- There is a pass over a header that may have parameters from every cursor. -/
theorem exists_headerPass (tokens : List Token) (start : Nat) :
    ∃ items trail stop, HeaderPass tokens start items trail stop := by
  cases starts : startsHeaderParameters (tokens.drop start) with
  | true =>
      obtain ⟨items, trail, stop, inside⟩ := exists_headerParametersPass tokens (start + 2)
      exact ⟨_, _, _, .list starts inside⟩
  | false => exact ⟨_, _, _, .absent starts⟩

/-- **There is a pass over a module from every cursor.** -/
theorem exists_modulePass (tokens : List Token) (start : Nat) :
    ∃ read trail stop, ModulePass tokens start read trail stop := by
  induction size : tokens.length - start using Nat.strong_induction_on generalizing start with
  | _ left ih =>
      cases here : tokens.drop start with
      | nil => exact ⟨_, _, _, .absent here⟩
      | cons first rest =>
          cases found : first.isKeyword .module_ && headIs Token.isIdentifier rest with
          | true =>
              obtain ⟨opens, isName⟩ := Bool.and_eq_true_iff.mp found
              obtain ⟨name, rest, rfl⟩ := exists_cons_of_headIs isName
              obtain ⟨parameters, trail, middle, header⟩ := exists_headerPass tokens (start + 2)
              obtain ⟨items, after, stop, following⟩ := exists_itemsPass tokens middle
              exact ⟨_, _, _, .found here opens isName header following⟩
          | false =>
              have inside := lt_length_of_drop here
              obtain ⟨read, after, stop, following⟩ := ih _ (by omega) (start + 1) rfl
              exact ⟨_, _, _, .skips here found following⟩

/-- **Reading a module ends, and on the way the cursor only goes forward**, whatever the tokens
are. There is a pass from the first token, and every pass reads what the reader of modules reads.
The cursor never moves back, every round of a loop takes a token or leaves the loop, every nested
call of the reader of statements comes after a token of its caller, and the cursor stops at most one
step beyond the end of the tokens. -/
theorem readModule?_advances (tokens : List Token) :
    (∃ read trail stop, ModulePass tokens 0 read trail stop) ∧
      ∀ read trail stop, ModulePass tokens 0 read trail stop →
        readModule? tokens = read ∧
          (0 :: (trail.map Moment.cursor ++ [stop])).IsChain (· ≤ ·) ∧
          (∀ moment ∈ trail, moment.Advances) ∧ stop ≤ tokens.length + 1 := by
  refine ⟨exists_modulePass tokens 0, ?_⟩
  intro read trail stop pass
  have forward := pass.forward
  have within := forward.moves.within
  rw [Nat.zero_max] at within
  exact ⟨pass.reads, forward.isChain, forward.advances, within⟩

/-- The tokens of `module m always q <= #`, in which nothing follows the sign of the delay. -/
def cutDelay : List Token :=
  [⟨.keyword .module_, "module", 1, 1⟩, ⟨.identifier, "m", 1, 8⟩,
    ⟨.keyword .always, "always", 1, 10⟩, ⟨.identifier, "q", 1, 17⟩, ⟨.operator, "<=", 1, 19⟩,
    ⟨.operator, "#", 1, 22⟩]

/-- A delay takes two tokens although only one is left, so the cursor stops one step beyond the
end. -/
theorem assignmentEnd_cutDelay : assignmentEnd cutDelay 4 = 7 := by
  have noRanges : skipRanges (cutDelay.drop 4) = cutDelay.drop 4 := by
    rw [cutDelay, List.drop_succ_cons, List.drop_succ_cons, List.drop_succ_cons,
      List.drop_succ_cons, List.drop_zero, skipRanges]
    rfl
  rw [assignmentEnd, noRanges]
  rfl

/-- The bound is met: the delay takes the token that is missing. -/
theorem readModule?_advances_cutDelay :
    ∃ read trail, ModulePass cutDelay 0 read trail (cutDelay.length + 1) ∧
      readModule? cutDelay = read ∧ ∀ moment ∈ trail, moment.Advances := by
  have body : StatementPass cutDelay 3 _ [] (assignmentEnd cutDelay 4) := .assignment rfl rfl
  rw [assignmentEnd_cutDelay] at body
  have item : ItemPass cutDelay 2 _ [] 7 := .always rfl rfl rfl body
  have pass : ModulePass cutDelay 0 _ _ 7 :=
    .found rfl rfl rfl (.absent rfl) (.next rfl rfl item (.leaves (.inl rfl)))
  have advances := (readModule?_advances cutDelay).2 _ _ _ pass
  exact ⟨_, _, pass, advances.1, advances.2.2.1⟩

end MiniVerilog.Source
