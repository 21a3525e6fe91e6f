import MiniVerilog.Proofs.Source.ItemPlace
import MiniVerilog.Proofs.Source.Rules
import MiniVerilog.Proofs.Source.Type

/-! # Items between tokens that mean nothing

Among the items of a module many tokens are passed over one by one. Here is what is passed over
(`MiniVerilog.Source.Quiet`), and how a declaration of one signal and an instance are read when
they stand among such tokens (`MiniVerilog.Source.readItems_signal`,
`MiniVerilog.Source.readItems_instance`).
-/

namespace MiniVerilog.Source

open Token (tokensOf)

/-- A name without a place. -/
def identifier (text : String) : Token :=
  ⟨.identifier, text, 0, 0⟩

/-- A number without a place. -/
def number (text : String) : Token :=
  ⟨.number, text, 0, 0⟩

/-- Tokens that are passed over where items are read. -/
def Quiet (tokens : List Token) : Prop :=
  ∀ rest, readItems (tokens ++ rest) = readItems rest

namespace Quiet

theorem nil : Quiet [] :=
  fun _ => rfl

theorem append {front back : List Token} (first : Quiet front) (second : Quiet back) :
    Quiet (front ++ back) := by
  intro rest
  rw [List.append_assoc, first, second]

theorem of_mark (text : String) : Quiet [mark text] := by
  intro rest
  rw [List.singleton_append, readItems]
  exact List.nil_append _

theorem of_number (text : String) : Quiet [number text] := by
  intro rest
  rw [List.singleton_append, readItems]
  exact List.nil_append _

/-- The reserved words of a block and of a loop are passed over between items. -/
theorem of_word {keyword : Keyword} (plain : keyword ∈ [Keyword.begin_, .end_, .forever]) :
    Quiet [word keyword] := by
  intro rest
  rw [List.singleton_append, readItems]
  simp only [List.mem_cons, List.not_mem_nil, or_false] at plain
  rcases plain with rfl | rfl | rfl <;> exact List.nil_append _

/-- A name that starts no instance. -/
theorem of_identifier {name : String} {tokens : List Token} (quiet : Quiet tokens)
    (noInstance : ∀ rest, startsInstance (identifier name :: (tokens ++ rest)) = false) :
    Quiet (identifier name :: tokens) := by
  intro rest
  have skipped : takeItem (identifier name) (tokens ++ rest) = ([], tokens ++ rest) := by
    change (if startsInstance (identifier name :: (tokens ++ rest)) then
      takeInstance (identifier name) (tokens ++ rest) else ([], tokens ++ rest)) = _
    rw [noInstance, if_neg Bool.false_ne_true]
  have noEnd : endsModule (identifier name) = false := rfl
  rw [List.cons_append, readItems, noEnd, if_neg Bool.false_ne_true, skipped, List.nil_append,
    quiet]

/-- A name before an operator other than `#`. -/
theorem of_name (name : String) {text : String} (noHash : text ≠ "#") :
    Quiet [identifier name, mark text] := by
  refine of_identifier (of_mark text) fun rest => ?_
  have other : (mark text).isOperator "#" = false := by
    rw [Token.isOperator, mark, beq_eq_false_iff_ne.mpr noHash, Bool.and_false]
  cases rest with
  | nil => rfl
  | cons third rest =>
      change (isInstanceName name && if (mark text).isIdentifier then _ else
        (mark text).isOperator "#" && third.isOperator "(") = false
      rw [other, Bool.false_and]
      exact Bool.and_false _

/-- A name that is none of an instance. -/
theorem of_reserved {name : String} (reserved : isInstanceName name = false) :
    Quiet [identifier name] := by
  refine of_identifier nil fun rest => ?_
  match rest with
  | [] => rfl
  | [_] => rfl
  | second :: third :: rest =>
      change (isInstanceName name && _) = false
      rw [reserved, Bool.false_and]

end Quiet

/-- The word that opens a declaration of signals of a kind. -/
def kindWord : SignalKind → Keyword
  | .wire => .wire
  | .reg => .reg

/-- The tokens of a declaration of one signal without an initial value. -/
def signalTokens (kind : SignalKind) (range : Option (Nat × Nat)) (name : String) : List Token :=
  word (kindWord kind) :: (tokensOf (typeParts false range) ++ [identifier name, mark ";"])

/-- A single name before a semicolon is read as a declaration without a value. -/
theorem takeSignalNames_single (name : String) (rest : List Token) :
    takeSignalNames (identifier name :: mark ";" :: rest) =
      ([⟨name, 0, none⟩], mark ";" :: rest) := by
  have ranges : skipRanges (mark ";" :: rest) = mark ";" :: rest := by
    rw [skipRanges]
    rfl
  have noValue : takeInitial endsInitial (mark ";" :: rest) = (none, mark ";" :: rest) := rfl
  have last : commaContinues (mark ";" :: rest) = false := by
    cases rest <;> rfl
  have isName : (identifier name).isIdentifier = true := rfl
  rw [takeSignalNames, isName, if_pos rfl]
  simp only [ranges, noValue, last, Bool.false_eq_true, ↓reduceIte]
  rfl

/-- **A declaration of one signal is read back**, with its range or without one. -/
theorem takeSignals_single (kind : SignalKind) (range : Option (Nat × Nat)) {name : String}
    (noMark : name ≠ "signed") (rest : List Token) :
    takeSignals kind (tokensOf (typeParts false range) ++ identifier name :: mark ";" :: rest) =
      (.signals kind false (rangeWords range) [⟨name, 0, none⟩], rest) := by
  have names := takeSignalNames_single name rest
  rcases range with _ | ⟨high, low⟩
  · have noSigned : isSignedMark (identifier name) = false := beq_eq_false_iff_ne.mpr noMark
    have kept : skipIf isSignedMark (identifier name :: mark ";" :: rest) =
        identifier name :: mark ";" :: rest := by
      rw [skipIf, noSigned, if_neg Bool.false_ne_true]
    have unmarked : headIs isSignedMark (identifier name :: mark ";" :: rest) = false := noSigned
    have noRange : takeRange? (identifier name :: mark ";" :: rest) =
        (none, identifier name :: mark ";" :: rest) := rfl
    change takeSignals kind (identifier name :: mark ";" :: rest) = _
    simp only [takeSignals, kept, unmarked, noRange, names]
    rfl
  · have range : takeRange? (tokensOf (typeParts false (some (high, low))) ++
        identifier name :: mark ";" :: rest) =
          (rangeWords (some (high, low)), identifier name :: mark ";" :: rest) := rfl
    have kept : skipIf isSignedMark (tokensOf (typeParts false (some (high, low))) ++
        identifier name :: mark ";" :: rest) = tokensOf (typeParts false (some (high, low))) ++
          identifier name :: mark ";" :: rest := rfl
    have unmarked : headIs isSignedMark (tokensOf (typeParts false (some (high, low))) ++
        identifier name :: mark ";" :: rest) = false := rfl
    simp only [takeSignals, kept, unmarked, range, names]
    rfl

/-- **A declaration of one signal is read.** -/
theorem readItems_signal (kind : SignalKind) (range : Option (Nat × Nat)) {name : String}
    (noMark : name ≠ "signed") (rest : List Token) :
    readItems (signalTokens kind range name ++ rest) =
      .signals kind false (rangeWords range) [⟨name, 0, none⟩] :: readItems rest := by
  have item : takeItem (word (kindWord kind))
      (tokensOf (typeParts false range) ++ identifier name :: mark ";" :: rest) =
        ([.signals kind false (rangeWords range) [⟨name, 0, none⟩]], rest) := by
    have taken := takeSignals_single kind range noMark rest
    cases kind with
    | wire =>
        change ([(takeSignals .wire _).1], (takeSignals .wire _).2) = _
        rw [taken]
    | reg =>
        change ([(takeSignals .reg _).1], (takeSignals .reg _).2) = _
        rw [taken]
  have noEnd : endsModule (word (kindWord kind)) = false := by
    cases kind <;> rfl
  rw [signalTokens, List.cons_append, List.append_assoc, readItems, noEnd,
    if_neg Bool.false_ne_true]
  simp only [List.cons_append, List.nil_append, item]

/-- The tokens of connections by name, with commas between them. -/
def connectionTokens : List String → List Token
  | [] => []
  | [name] => [mark ".", identifier name, mark "(", identifier name, mark ")"]
  | name :: next :: names =>
    mark "." :: identifier name :: mark "(" :: identifier name :: mark ")" :: mark "," ::
      connectionTokens (next :: names)

theorem takeConnections_closing (rest : List Token) :
    takeConnections (mark ")" :: rest) = ([], mark ")" :: rest) := by
  rw [takeConnections]
  rfl

theorem takeConnections_comma (rest : List Token) :
    takeConnections (mark "," :: rest) = takeConnections rest := by
  rw [takeConnections]
  rfl

/-- **A connection by name is read back** before the others. -/
theorem takeConnections_named (name : String) (rest : List Token) :
    takeConnections
        (mark "." :: identifier name :: mark "(" :: identifier name :: mark ")" :: rest) =
      ((name, name) :: (takeConnections rest).1, (takeConnections rest).2) := by
  have net : takeParenthesised (mark "(" :: identifier name :: mark ")" :: rest) =
      ([name], rest) := rfl
  have named : skipIf Token.isIdentifier
      (identifier name :: mark "(" :: identifier name :: mark ")" :: rest) =
        mark "(" :: identifier name :: mark ")" :: rest := rfl
  have text : joined [name] = name := String.intercalate_singleton
  rw [takeConnections]
  simp only [named, net, text]
  rfl

/-- **Connections by name are read** in their order. -/
theorem takeConnections_tokens (names : List String) (rest : List Token) :
    takeConnections (connectionTokens names ++ mark ")" :: rest) =
      (names.map fun name => (name, name), mark ")" :: rest) := by
  induction names with
  | nil => exact takeConnections_closing rest
  | cons name names ih =>
      cases names with
      | nil =>
          change takeConnections (mark "." :: identifier name :: mark "(" :: identifier name ::
            mark ")" :: mark ")" :: rest) = _
          rw [takeConnections_named, takeConnections_closing]
          rfl
      | cons next names =>
          change takeConnections (mark "." :: identifier name :: mark "(" :: identifier name ::
            mark ")" :: mark "," :: (connectionTokens (next :: names) ++ mark ")" :: rest)) = _
          rw [takeConnections_named, takeConnections_comma, ih]
          rfl

/-- The tokens of an instance. -/
def instanceTokens (moduleName instanceName : String) (names : List String) : List Token :=
  identifier moduleName :: identifier instanceName :: mark "(" ::
    (connectionTokens names ++ [mark ")", mark ";"])

/-- **An instance is read** with its connections. -/
theorem readItems_instance {moduleName instanceName : String} (names : List String)
    (isModule : isInstanceName moduleName = true) (isInstance : isInstanceName instanceName = true)
    (rest : List Token) :
    readItems (instanceTokens moduleName instanceName names ++ rest) =
      .instanceOf ⟨moduleName, instanceName, names.map fun name => (name, name), 0⟩ ::
        readItems rest := by
  have starts : startsInstance (identifier moduleName :: identifier instanceName :: mark "(" ::
      (connectionTokens names ++ mark ")" :: mark ";" :: rest)) = true := by
    change (isInstanceName moduleName && (isInstanceName instanceName && true)) = true
    rw [isModule, isInstance]
    rfl
  have item : takeItem (identifier moduleName) (identifier instanceName :: mark "(" ::
      (connectionTokens names ++ mark ")" :: mark ";" :: rest)) =
        ([.instanceOf ⟨moduleName, instanceName, names.map fun name => (name, name), 0⟩],
          rest) := by
    change (if startsInstance (identifier moduleName :: identifier instanceName :: mark "(" ::
      (connectionTokens names ++ mark ")" :: mark ";" :: rest)) then
        ([Item.instanceOf ⟨moduleName, instanceName,
          (takeConnections (connectionTokens names ++ mark ")" :: mark ";" :: rest)).1, 0⟩],
          skipIf (Token.isOperator ";") (skipIf (Token.isOperator ")")
            (takeConnections (connectionTokens names ++ mark ")" :: mark ";" :: rest)).2))
      else _) = _
    rw [starts, if_pos rfl, takeConnections_tokens]
    rfl
  have noEnd : endsModule (identifier moduleName) = false := rfl
  rw [instanceTokens, List.cons_append, readItems, noEnd, if_neg Bool.false_ne_true]
  simp only [List.cons_append, List.append_assoc, List.nil_append, item]

end MiniVerilog.Source
