import MiniVerilog.Proofs.Source.Enclosed
import MiniVerilog.Proofs.Source.ItemPlace

/-! # Items stop at the end of their module

The readers of declarations, assignments, always blocks and instances give the same items
whatever comes after enclosed tokens, and so does reading all items of a module
(`MiniVerilog.Source.readItems_append`) and its header
(`MiniVerilog.Source.readHeaderParameters_confined`).
-/

namespace MiniVerilog.Source

open List (IsSuffix suffix_refl suffix_cons)

instance : SparesEnd isSignedMark where
  spares token isEnd := by
    have noName : token.isIdentifier = false := SparesEnd.spares token isEnd
    rw [isSignedMark, noName, Bool.false_and]

instance : SparesEnd (·.text == "integer") where
  spares token isEnd := by
    rw [isEnd.2]
    rfl

instance : SparesEnd fun token => token.isKeyword .reg || token.isKeyword .wire where
  spares token isEnd := by
    rw [Token.isKeyword, Token.isKeyword, isEnd.kind_eq]
    rfl

variable {tokens rest : List Token} {first : Token}

/-- Whether a comma goes on with a list is decided by enclosed tokens alone. -/
theorem commaContinues_append (enclosed : Enclosed tokens) (after : List Token) :
    commaContinues (tokens ++ after) = commaContinues tokens := by
  match tokens with
  | [] => exact (enclosed.ne_nil rfl).elim
  | [last] =>
      have noComma : last.isOperator "," = false := SparesEnd.spares last enclosed.isEnd
      cases after with
      | nil => rfl
      | cons next after =>
          rw [List.cons_append, List.nil_append, commaContinues, noComma]
          rfl
  | _ :: _ :: _ => rfl

/-- What goes on with a list is a comma. -/
theorem headIs_of_commaContinues (continues : commaContinues tokens = true) :
    headIs (Token.isOperator ",") tokens = true := by
  match tokens with
  | [] => cases continues
  | [_] => cases continues
  | _ :: _ :: _ => exact (Bool.and_eq_true_iff.mp continues).1

/-- The names of ports end before the end of the module. The induction is on the tokens, two of
which each further name takes. -/
theorem takePortNames_confined (enclosed : Enclosed tokens) : Confined takePortNames tokens := by
  induction size : tokens.length using Nat.strong_induction_on generalizing tokens with
  | _ bound ih =>
      cases tokens with
      | nil => exact (enclosed.ne_nil rfl).elim
      | cons first rest =>
          by_cases isName : first.isIdentifier = true
          · have others := enclosed.tail (SparesEnd.not_isEnd isName)
            have comma := commaContinues_append others
            by_cases continues : commaContinues rest = true
            · have following := ih (rest.drop 1).length (by
                rw [← size, List.length_drop, List.length_cons]
                omega) (others.drop_one (headIs_of_commaContinues continues)) rfl
              apply Confined.intro following.rest
              intro after
              simp only [List.cons_append, takePortNames_cons, isName, comma, continues,
                ↓reduceIte, others.drop_one_append, following.append]
              rfl
            · apply Confined.intro others
              intro after
              rw [List.cons_append, takePortNames_cons, if_pos isName, comma, if_neg continues]
          · apply Confined.intro enclosed
            intro after
            rw [List.cons_append, takePortNames_cons, if_neg isName]

/-- An initial value ends before the end of the module. -/
theorem takeInitial_confined (stop : Token → Bool) (enclosed : Enclosed tokens) :
    Confined (takeInitial stop) tokens := by
  by_cases given : headIs (Token.isOperator "=") tokens = true
  · have words := takeUntil_confined stop 0 (enclosed.drop_one given)
    apply Confined.intro words.rest
    intro after
    rw [takeInitial, enclosed.headIs_append, if_pos given, enclosed.drop_one_append, words.append]
  · apply Confined.intro enclosed
    intro after
    rw [takeInitial, enclosed.headIs_append, if_neg given]

/-- The names of signals with their dimensions and initial values end before the end of the
module. -/
theorem takeSignalNames_confined (enclosed : Enclosed tokens) :
    Confined takeSignalNames tokens := by
  induction size : tokens.length using Nat.strong_induction_on generalizing tokens with
  | _ bound ih =>
      cases tokens with
      | nil => exact (enclosed.ne_nil rfl).elim
      | cons first rest =>
          by_cases isName : first.isIdentifier = true
          · have ranges := skipRanges_confined (enclosed.tail (SparesEnd.not_isEnd isName))
            have value := takeInitial_confined endsInitial ranges.rest
            have comma := commaContinues_append value.rest
            by_cases continues :
                commaContinues (takeInitial endsInitial (skipRanges rest)).2 = true
            · have dimensions := length_skipRanges_le rest
              have left := length_takeInitial_le endsInitial (skipRanges rest)
              have following := ih _ (by
                rw [← size, List.length_drop, List.length_cons]
                omega) (value.rest.drop_one (headIs_of_commaContinues continues)) rfl
              apply Confined.intro following.rest
              intro after
              rw [List.cons_append, takeSignalNames, if_pos isName]
              simp only [ranges.append, value.append, comma, continues, ↓reduceIte,
                value.rest.drop_one_append, following.append]
              rfl
            · apply Confined.intro value.rest
              intro after
              rw [List.cons_append, takeSignalNames, if_pos isName]
              simp only [ranges.append, value.append, comma, continues, Bool.false_eq_true,
                ↓reduceIte]
              rfl
          · apply Confined.intro enclosed
            intro after
            rw [List.cons_append, takeSignalNames, if_neg isName]

/-- The names of parameters with their values end before the end of the module, also where a name
without a value ends the list. -/
theorem takeParameterNames_confined (enclosed : Enclosed tokens) :
    Confined takeParameterNames tokens := by
  induction size : tokens.length using Nat.strong_induction_on generalizing tokens with
  | _ bound ih =>
      cases tokens with
      | nil => exact (enclosed.ne_nil rfl).elim
      | cons first rest =>
          have skipped := skipIf_confined Token.isIdentifier enclosed
          by_cases isName : first.isIdentifier = true
          · have others := enclosed.tail (SparesEnd.not_isEnd isName)
            by_cases given : headIs (Token.isOperator "=") rest = true
            · have value := takeUntil_confined endsParameter 0 (others.drop_one given)
              have comma := commaContinues_append value.rest
              by_cases continues :
                  commaContinues (takeUntil endsParameter 0 (rest.drop 1)).2 = true
              · have left := length_takeUntil_le endsParameter 0 (rest.drop 1)
                have following := ih _ (by
                  rw [List.length_drop] at left
                  rw [← size, List.length_drop, List.length_cons]
                  omega) (value.rest.drop_one (headIs_of_commaContinues continues)) rfl
                apply Confined.intro following.rest
                intro after
                rw [List.cons_append, takeParameterNames]
                simp only [isName, others.headIs_append, given, Bool.and_self, ↓reduceIte,
                  others.drop_one_append, value.append, comma, continues,
                  value.rest.drop_one_append, following.append]
                rfl
              · apply Confined.intro value.rest
                intro after
                rw [List.cons_append, takeParameterNames]
                simp only [isName, others.headIs_append, given, Bool.and_self, ↓reduceIte,
                  others.drop_one_append, value.append, comma, continues, Bool.false_eq_true]
                rfl
            · apply Confined.intro skipped.rest
              intro after
              rw [List.cons_append, takeParameterNames, others.headIs_append, isName,
                Bool.true_and, if_neg given, ← List.cons_append, skipped.append]
          · apply Confined.intro skipped.rest
            intro after
            have noName := Bool.eq_false_iff.mpr isName
            rw [List.cons_append, takeParameterNames, noName, Bool.false_and,
              ← List.cons_append, skipped.append]
            rfl

/-- A list of parameters, with a type in front or without one, ends before the end of the module. -/
theorem takeParameters_confined (enclosed : Enclosed tokens) : Confined takeParameters tokens := by
  have signed := skipIf_confined isSignedMark enclosed
  have integer := skipIf_confined (·.text == "integer") signed.rest
  have range := takeRange?_confined integer.rest
  have names := takeParameterNames_confined range.rest
  apply Confined.intro names.rest
  intro after
  rw [takeParameters, signed.append, integer.append, range.append, names.append]

/-- Whether an instance starts is decided by enclosed tokens alone, as none starts with the end of
the module behind its name. -/
theorem startsInstance_append (others : Enclosed rest) (after : List Token) :
    startsInstance (first :: (rest ++ after)) = startsInstance (first :: rest) := by
  match rest with
  | [] => exact (others.ne_nil rfl).elim
  | [last] =>
      have noName : last.isIdentifier = false := SparesEnd.spares last others.isEnd
      have noHash : last.isOperator "#" = false := SparesEnd.spares last others.isEnd
      cases after with
      | nil => rfl
      | cons next after =>
          simp only [List.cons_append, List.nil_append, startsInstance, noName, noHash,
            Bool.false_and, Bool.false_eq_true, ↓reduceIte, Bool.and_false]
  | _ :: _ :: _ => rfl

/-- **The connections of an instance end before the end of the module**: by name, by position, and
where nothing is taken. -/
theorem takeConnections_confined (enclosed : Enclosed tokens) :
    Confined takeConnections tokens := by
  induction size : tokens.length using Nat.strong_induction_on generalizing tokens with
  | _ bound ih =>
      cases tokens with
      | nil => exact (enclosed.ne_nil rfl).elim
      | cons first rest =>
          by_cases closing : first.isOperator ")" = true
          · apply Confined.intro enclosed
            intro after
            rw [List.cons_append, takeConnections, if_pos closing]
          by_cases comma : first.isOperator "," = true
          · have following := ih _ (size ▸ Nat.lt_succ_self rest.length)
              (enclosed.tail (SparesEnd.not_isEnd comma)) rfl
            apply following.cons
            intro tokens
            rw [takeConnections, if_neg closing, if_pos comma]
          by_cases named : first.isOperator "." = true
          · have others := enclosed.tail (SparesEnd.not_isEnd named)
            have name := skipIf_confined Token.isIdentifier others
            have net := takeParenthesised_confined name.rest
            have following := ih _ (by
              have nameLe := length_skipIf_le Token.isIdentifier rest
              have netLe := length_takeParenthesised_le (skipIf Token.isIdentifier rest)
              rw [← size, List.length_cons]
              omega) net.rest rfl
            have port (after : List Token) : (rest ++ after).head? = rest.head? :=
              List.head?_append_of_ne_nil rest others.ne_nil
            apply Confined.intro following.rest
            intro after
            rw [List.cons_append, takeConnections, if_neg closing, if_neg comma, if_pos named]
            simp only [port, name.append, net.append, following.append]
            rfl
          have net := takeUntil_confined endsConnection 0 enclosed
          by_cases fewer :
              (takeUntil endsConnection 0 (first :: rest)).2.length < (first :: rest).length
          · have following := ih _ (size ▸ fewer) net.rest rfl
            apply Confined.intro following.rest
            intro after
            have still := (length_append_lt after).mpr fewer
            rw [List.cons_append, takeConnections, if_neg closing, if_neg comma, if_neg named,
              ← List.cons_append, net.append]
            simp only [List.cons_append, still, ↓reduceIte, following.append]
            rfl
          · apply Confined.intro enclosed
            intro after
            have still := mt (length_append_lt after).mp fewer
            rw [List.cons_append, takeConnections, if_neg closing, if_neg comma, if_neg named,
              ← List.cons_append, net.append]
            simp only [List.cons_append, still, ↓reduceIte]
            rfl

/-- Connections with their parentheses end before the end of the module, if there are any. -/
theorem takeConnectionList_confined (enclosed : Enclosed tokens) :
    Confined takeConnectionList tokens := by
  by_cases opens : headIs (Token.isOperator "(") tokens = true
  · have connections := takeConnections_confined (enclosed.drop_one opens)
    have closed := skipIf_confined (Token.isOperator ")") connections.rest
    apply Confined.intro closed.rest
    intro after
    simp only [takeConnectionList, enclosed.headIs_append, opens, ↓reduceIte,
      enclosed.drop_one_append, connections.append, closed.append]
    rfl
  · apply Confined.intro enclosed
    intro after
    rw [takeConnectionList, enclosed.headIs_append, if_neg opens]

/-- Parameter values are skipped before the end of the module. -/
theorem skipParameterValues_confined (enclosed : Enclosed tokens) :
    ConfinedSkip skipParameterValues tokens := by
  by_cases opens : headIs (Token.isOperator "#") tokens = true
  · have values := takeParenthesised_confined (enclosed.drop_one opens)
    apply ConfinedSkip.intro values.rest
    intro after
    rw [skipParameterValues, enclosed.headIs_append, if_pos opens, enclosed.drop_one_append,
      values.append]
  · apply ConfinedSkip.intro enclosed
    intro after
    rw [skipParameterValues, enclosed.headIs_append, if_neg opens]

/-- An instance ends before the end of the module, also where it has no name. -/
theorem takeInstanceName_confined (moduleName : Token) (enclosed : Enclosed tokens) :
    Confined (takeInstanceName moduleName) tokens := by
  cases tokens with
  | nil => exact (enclosed.ne_nil rfl).elim
  | cons name rest =>
      by_cases isName : name.isIdentifier = true
      · have connections := takeConnectionList_confined (enclosed.tail (SparesEnd.not_isEnd isName))
        have closed := skipIf_confined (Token.isOperator ";") connections.rest
        apply Confined.intro closed.rest
        intro after
        simp only [List.cons_append, takeInstanceName, isName, ↓reduceIte, connections.append,
          closed.append]
        rfl
      · have skipped := skipStatement_confined 0 enclosed
        apply Confined.intro skipped.rest
        intro after
        rw [List.cons_append, takeInstanceName, if_neg isName, ← List.cons_append, skipped.append]

/-- An instance with parameter values ends before the end of the module. -/
theorem takeInstance_confined (moduleName : Token) (enclosed : Enclosed tokens) :
    Confined (takeInstance moduleName) tokens := by
  have values := skipParameterValues_confined enclosed
  have name := takeInstanceName_confined moduleName values.rest
  apply Confined.intro name.rest
  intro after
  rw [takeInstance, values.append, name.append]

/-- A declaration of ports ends before the end of the module. -/
theorem takePorts_confined (direction : Direction) (enclosed : Enclosed tokens) :
    Confined (takePorts direction) tokens := by
  have kind :=
    skipIf_confined (fun token => token.isKeyword .reg || token.isKeyword .wire) enclosed
  have signed := skipIf_confined isSignedMark kind.rest
  have range := takeRange?_confined signed.rest
  have names := takePortNames_confined range.rest
  apply Confined.intro names.rest
  intro after
  simp only [takePorts, enclosed.headIs_append, kind.append, kind.rest.headIs_append,
    signed.append, range.append, names.append]
  rfl

/-- A declaration of signals ends before the end of the module. -/
theorem takeSignals_confined (kind : SignalKind) (enclosed : Enclosed tokens) :
    Confined (takeSignals kind) tokens := by
  have signed := skipIf_confined isSignedMark enclosed
  have range := takeRange?_confined signed.rest
  have names := takeSignalNames_confined range.rest
  have closed := skipIf_confined (Token.isOperator ";") names.rest
  apply Confined.intro closed.rest
  intro after
  simp only [takeSignals, enclosed.headIs_append, signed.append, range.append, names.append,
    closed.append]
  rfl

/-- What follows the target of a continuous assignment ends before the end of the module, with `=`
or without. -/
theorem takeAssignment?_confined (target : Token) (line : Nat) (enclosed : Enclosed tokens) :
    Confined (takeAssignment? target line) tokens := by
  by_cases given : headIs (Token.isOperator "=") tokens = true
  · have words := takeUntil_confined (Token.isOperator ";") 0 (enclosed.drop_one given)
    have closed := skipIf_confined (Token.isOperator ";") words.rest
    apply Confined.intro closed.rest
    intro after
    simp only [takeAssignment?, enclosed.headIs_append, given, ↓reduceIte,
      enclosed.drop_one_append, words.append, closed.append]
    rfl
  · have skipped := skipStatement_confined 0 enclosed
    apply Confined.intro skipped.rest
    intro after
    rw [takeAssignment?, enclosed.headIs_append, if_neg given, skipped.append]

/-- A continuous assignment ends before the end of the module, also one that is skipped. -/
theorem takeAssign_confined (line : Nat) (enclosed : Enclosed tokens) :
    Confined (takeAssign line) tokens := by
  cases tokens with
  | nil => exact (enclosed.ne_nil rfl).elim
  | cons target rest =>
      by_cases isName : target.isIdentifier = true
      · have ranges := skipRanges_confined (enclosed.tail (SparesEnd.not_isEnd isName))
        have assignment := takeAssignment?_confined target line ranges.rest
        apply (Confined.after_skip ranges assignment).cons
        intro tokens
        rw [takeAssign, if_pos isName]
      · have skipped := skipStatement_confined 0 enclosed
        apply Confined.intro skipped.rest
        intro after
        rw [List.cons_append, takeAssign, if_neg isName, ← List.cons_append, skipped.append]

/-- The signals of an event control end before the end of the module. -/
theorem takeEvents_confined (enclosed : Enclosed tokens) : Confined takeEvents tokens := by
  cases tokens with
  | nil => exact (enclosed.ne_nil rfl).elim
  | cons first rest =>
      by_cases all : first.isOperator "*" = true
      · apply Confined.intro (enclosed.tail (SparesEnd.not_isEnd all))
        intro after
        rw [List.cons_append, takeEvents, if_pos all]
      by_cases opens : first.isOperator "(" = true
      · have words := takeUntil_confined (Token.isOperator ")") 0
          (enclosed.tail (SparesEnd.not_isEnd opens))
        have closed := skipIf_confined (Token.isOperator ")") words.rest
        apply Confined.intro closed.rest
        intro after
        simp only [List.cons_append, takeEvents, all, opens, Bool.false_eq_true, ↓reduceIte,
          words.append, closed.append]
        rfl
      by_cases isName : first.isIdentifier = true
      · apply Confined.intro (enclosed.tail (SparesEnd.not_isEnd isName))
        intro after
        rw [List.cons_append, takeEvents, if_neg all, if_neg opens, if_pos isName]
      · apply Confined.intro enclosed
        intro after
        rw [List.cons_append, takeEvents, if_neg all, if_neg opens, if_neg isName]

/-- An event control ends before the end of the module, if there is one. -/
theorem takeEventControl_confined (enclosed : Enclosed tokens) :
    Confined takeEventControl tokens := by
  by_cases control : headIs (Token.isOperator "@") tokens = true
  · have events := takeEvents_confined (enclosed.drop_one control)
    apply Confined.intro events.rest
    intro after
    rw [takeEventControl, enclosed.headIs_append, if_pos control, enclosed.drop_one_append,
      events.append]
  · apply Confined.intro enclosed
    intro after
    rw [takeEventControl, enclosed.headIs_append, if_neg control]

/-- An always block ends before the end of the module. -/
theorem takeAlways_confined (line : Nat) (enclosed : Enclosed tokens) :
    Confined (takeAlways line) tokens := by
  have events := takeEventControl_confined enclosed
  have body := (readsConfined events.rest).statement
  apply Confined.intro body.rest
  intro after
  rw [takeAlways, events.append]
  exact congrArg (Prod.map (fun body => Item.always _ body line) id) (body.append after)

/-- **What starts with a token ends before the module does.** -/
theorem takeItem_confined (enclosed : Enclosed (first :: rest)) (other : ¬ IsEnd first) :
    Confined (takeItem first) rest := by
  have others := enclosed.tail other
  have parameters := takeParameters_confined others
  have semicolon := skipIf_confined (Token.isOperator ";") parameters.rest
  change Confined (fun tokens => takeItem first tokens) rest
  cases kind : first.kind with
  | keyword word =>
      have named : first.isKeyword word = true := beq_iff_eq.mpr kind
      simp only [takeItem, kind]
      cases word with
      | input | output | inout => exact (takePorts_confined _ others).map fun item => [item]
      | wire | reg => exact (takeSignals_confined _ others).map fun item => [item]
      | parameter =>
          exact (parameters.before_skip semicolon).map fun names => [Item.parameters false names]
      | localparam =>
          exact (parameters.before_skip semicolon).map fun names => [Item.parameters true names]
      | always => exact (takeAlways_confined first.line others).map fun item => [item]
      | assign => exact takeAssign_confined first.line others
      | function =>
          have closed := List.any_eq_true.mp (enclosed.functions _ (suffix_refl _) named)
          have different : Keyword.endfunction ≠ .endmodule := fun same => nomatch same
          exact (skipPast_confined different others closed).reads []
      | task =>
          have closed := List.any_eq_true.mp (enclosed.tasks _ (suffix_refl _) named)
          have different : Keyword.endtask ≠ .endmodule := fun same => nomatch same
          exact (skipPast_confined different others closed).reads []
      | _ => exact .nothing [] others
  | identifier =>
      by_cases starts : startsInstance (first :: rest) = true
      · have declaration := takeInstance_confined first others
        apply Confined.intro declaration.rest
        intro after
        simp only [takeItem, kind, startsInstance_append others, starts, ↓reduceIte]
        exact declaration.append after
      · apply Confined.intro others
        intro after
        simp only [takeItem, kind, startsInstance_append others, starts, Bool.false_eq_true,
          ↓reduceIte]
        rfl
  | number | operator | string | comment =>
      simp only [takeItem, kind]
      exact .nothing [] others

/-- **The items of a module are the same whatever comes after it.** -/
theorem readItems_append (enclosed : Enclosed tokens) (after : List Token) :
    readItems (tokens ++ after) = readItems tokens := by
  induction size : tokens.length using Nat.strong_induction_on generalizing tokens with
  | _ bound ih =>
      cases tokens with
      | nil => exact (enclosed.ne_nil rfl).elim
      | cons first rest =>
          rw [List.cons_append, readItems, readItems]
          by_cases ends : endsModule first = true
          · rw [if_pos ends, if_pos ends]
          · have other : ¬ IsEnd first := fun isEnd =>
              ends (Bool.or_eq_true_iff.mpr (.inr isEnd.1))
            have item := takeItem_confined enclosed other
            have shorter : (takeItem first rest).2.length < bound :=
              size ▸ Nat.lt_succ_of_le (length_takeItem_le first rest)
            rw [if_neg ends, if_neg ends, item.append, ih _ shorter item.rest rfl]

theorem startsParameters_of_isEnd (isEnd : IsEnd first) : startsParameters first rest = false := by
  have noName : first.isIdentifier = false := SparesEnd.spares first isEnd
  rw [startsParameters, noName, Token.isKeyword, Token.isKeyword, isEnd.kind_eq]
  rfl

theorem startsParameters_append (others : Enclosed rest) (after : List Token) :
    startsParameters first (rest ++ after) = startsParameters first rest := by
  rw [startsParameters, others.headIs_append, ← startsParameters]

/-- One list of parameters in a header, whose first token may be its first name. -/
theorem takeHeaderList_confined (enclosed : Enclosed (first :: rest)) (others : Enclosed rest) :
    Confined (fun tokens => takeParameters (if first.isIdentifier then first :: tokens else tokens))
      rest := by
  by_cases isName : first.isIdentifier = true
  · simp only [isName, ↓reduceIte]
    have names := takeParameters_confined enclosed
    exact ⟨names.rest, names.append⟩
  · simp only [isName, Bool.false_eq_true, ↓reduceIte]
    exact takeParameters_confined others

/-- The parameters of a header are the same whatever comes after the module, if their list is
closed in it. -/
theorem takeHeaderParameters_confined (enclosed : Enclosed tokens)
    (closed : (takeHeaderParameters tokens).2 ≠ []) : Confined takeHeaderParameters tokens := by
  induction size : tokens.length using Nat.strong_induction_on generalizing tokens with
  | _ bound ih =>
      cases tokens with
      | nil => exact (enclosed.ne_nil rfl).elim
      | cons first rest =>
          have opens (tokens : List Token) := takeHeaderParameters.eq_2 first tokens
          rw [opens] at closed
          by_cases closing : first.isOperator ")" = true
          · apply Confined.intro (enclosed.tail (SparesEnd.not_isEnd closing))
            intro after
            rw [List.cons_append, opens, if_pos closing]
          rw [if_neg closing] at closed
          by_cases starts : startsParameters first rest = true
          · have others : Enclosed rest := enclosed.tail fun isEnd => by
              rw [startsParameters_of_isEnd isEnd] at starts
              cases starts
            obtain ⟨left, names⟩ := takeHeaderList_confined enclosed others
            rw [if_pos starts] at closed
            generalize takeParameters (if first.isIdentifier then first :: rest else rest) = list
              at left names closed
            by_cases fewer : list.2.length < (first :: rest).length
            · rw [if_pos fewer] at closed
              have following := ih _ (size ▸ fewer) left closed rfl
              apply Confined.intro following.rest
              intro after
              have still := (length_append_lt after).mpr fewer
              rw [List.cons_append, opens, if_neg closing, startsParameters_append others,
                if_pos starts]
              simp only [names, still, ↓reduceIte, following.append]
              rfl
            · apply Confined.intro left
              intro after
              have still := mt (length_append_lt after).mp fewer
              rw [List.cons_append, opens, if_neg closing, startsParameters_append others,
                if_pos starts]
              simp only [names, still, ↓reduceIte]
              rfl
          · rw [if_neg starts] at closed
            have others : Enclosed rest := by
              refine enclosed.suffix (suffix_cons first rest) ?_
              rintro rfl
              exact closed (by rw [takeHeaderParameters])
            have following := ih _ (size ▸ Nat.lt_succ_self rest.length) others closed rfl
            apply Confined.intro following.rest
            intro after
            rw [List.cons_append, opens, if_neg closing, startsParameters_append others,
              if_neg starts, following.append]

/-- The header of a module is the same whatever comes after the module, if its list of
parameters is closed in it. -/
theorem readHeaderParameters_confined (enclosed : Enclosed tokens)
    (closed : (readHeaderParameters tokens).2 ≠ []) : Confined readHeaderParameters tokens := by
  match tokens with
  | [] => exact (enclosed.ne_nil rfl).elim
  | [last] =>
      have noHash : last.isOperator "#" = false := SparesEnd.spares last enclosed.isEnd
      apply Confined.intro enclosed
      intro after
      cases after with
      | nil => rfl
      | cons next after =>
          rw [List.cons_append, List.nil_append, readHeaderParameters, noHash, Bool.false_and]
          rfl
  | hash :: opening :: rest =>
      by_cases list : (hash.isOperator "#" && opening.isOperator "(") = true
      · obtain ⟨isHash, isOpening⟩ := Bool.and_eq_true_iff.mp list
        rw [readHeaderParameters, if_pos list] at closed
        have others :=
          (enclosed.tail (SparesEnd.not_isEnd isHash)).tail (SparesEnd.not_isEnd isOpening)
        have parameters := takeHeaderParameters_confined others closed
        apply Confined.intro parameters.rest
        intro after
        rw [List.cons_append, List.cons_append, readHeaderParameters, if_pos list,
          parameters.append]
      · apply Confined.intro enclosed
        intro after
        rw [List.cons_append, List.cons_append, readHeaderParameters, if_neg list]

end MiniVerilog.Source
