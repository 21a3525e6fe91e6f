import MiniVerilog.Proofs.Source.Pass

/-! # Passes over lists of names and connections

The readers of ports, signals and parameters are one loop over names, which differ in what they read
behind a name. The rounds of this loop, and of the loop over the connections of an instance, take a
token or leave the loop.
-/

namespace MiniVerilog.Source

open List (suffix_refl drop_suffix)

variable {tokens : List Token}

/-- A round of a loop over names: a name, what is read behind it, and a comma if another name
follows. A name without what has to stand behind it leaves the loop and is lost. -/
def nameRound (value : List Token → Option (Option (List String) × List Token))
    (tokens : List Token) (cursor : Nat) : Round Declarator :=
  match tokens.drop cursor with
  | [] => ⟨[], cursor, true⟩
  | token :: rest =>
    if token.isIdentifier then
      match value rest with
      | none => ⟨[], cursor + 1, true⟩
      | some (initial, after) =>
        let stop := behind tokens (cursor + 1) after
        if commaContinues after then ⟨[⟨token.text, token.line, initial⟩], stop + 1, false⟩
        else ⟨[⟨token.text, token.line, initial⟩], stop, true⟩
    else ⟨[], cursor, true⟩

/-- Nothing is read behind the name of a port. -/
def portValue (rest : List Token) : Option (Option (List String) × List Token) :=
  some (none, rest)

/-- Behind the name of a signal stand its dimensions and perhaps an initial value. -/
def signalValue (rest : List Token) : Option (Option (List String) × List Token) :=
  some (takeInitial endsInitial (skipRanges rest))

/-- Behind the name of a parameter stands its value. -/
def parameterValue (rest : List Token) : Option (Option (List String) × List Token) :=
  if headIs (Token.isOperator "=") rest then
    let value := takeUntil endsParameter 0 (rest.drop 1)
    some (some value.1, value.2)
  else none

/-- A reader of a list of names, told by what it reads behind a name. -/
structure ReadsList (value : List Token → Option (Option (List String) × List Token))
    (take : List Token → List Declarator × List Token) : Prop where
  suffix : ∀ rest initial after, value rest = some (initial, after) → after <:+ rest
  nil : take [] = ([], [])
  cons : ∀ token rest, take (token :: rest) =
    if token.isIdentifier then
      match value rest with
      | none => ([], rest)
      | some (initial, after) =>
        if commaContinues after then
          (⟨token.text, token.line, initial⟩ :: (take (after.drop 1)).1, (take (after.drop 1)).2)
        else ([⟨token.text, token.line, initial⟩], after)
    else ([], token :: rest)

/-- What goes on with a list has a first token. -/
theorem exists_cons_of_commaContinues {tokens : List Token}
    (continues : commaContinues tokens = true) : ∃ comma rest, tokens = comma :: rest := by
  unfold commaContinues at continues
  split at continues
  · exact ⟨_, _, rfl⟩
  · cases continues

section ReadsList

variable {value : List Token → Option (Option (List String) × List Token)}
  {take : List Token → List Declarator × List Token} (reads : ReadsList value take)

include reads

/-- **The rounds of a list of names take names**, up to the last one. -/
theorem nameRound_unfolds (tokens : List Token) (start : Nat) :
    (nameRound value tokens start).Unfolds tokens take start := by
  unfold nameRound
  cases here : tokens.drop start with
  | nil =>
      exact .last (.refl tokens start) (by rw [here, reads.nil])
  | cons token rest =>
      have one := Moves.succ here
      have following := drop_succ here
      have taken := reads.cons token rest
      dsimp only
      split
      · rename_i isName
        rw [if_pos isName] at taken
        cases behindName : value rest with
        | none =>
            rw [behindName] at taken
            exact .last one (by rw [here, taken, following])
        | some found =>
            obtain ⟨initial, after⟩ := found
            rw [behindName] at taken
            have name := takes_behind here (reads.suffix rest initial after behindName)
            dsimp only at taken ⊢
            split
            · rename_i continues
              obtain ⟨comma, others, rfl⟩ := exists_cons_of_commaContinues continues
              rw [if_pos continues] at taken
              refine .next (name.moves.trans (.succ name.left)) (lt_length_of_drop here)
                (Nat.lt_succ_of_lt name.later) ?_
              rw [here, taken, drop_succ name.left]
              rfl
            · rename_i ends
              rw [if_neg ends] at taken
              exact .last name.moves (by rw [here, taken, name.left])
      · rename_i noName
        rw [if_neg noName] at taken
        exact .last (.refl tokens start) (by rw [here, taken])

end ReadsList

/-- A round that comes to a name takes it. -/
theorem lt_stop_nameRound (value : List Token → Option (Option (List String) × List Token))
    {start : Nat} {first : Token} {rest : List Token} (here : tokens.drop start = first :: rest)
    (isName : first.isIdentifier = true) : start < (nameRound value tokens start).stop := by
  unfold nameRound
  rw [here]
  dsimp only
  rw [if_pos isName]
  split
  · exact Nat.lt_succ_self start
  · rename_i initial after _
    have name := Nat.lt_of_lt_of_le (Nat.lt_succ_self start)
      (Moves.behind tokens (start + 1) after).le
    split
    · exact Nat.lt_succ_of_lt name
    · exact name

/-- The names of ports are read as a list without values. -/
theorem readsList_ports : ReadsList portValue takePortNames where
  suffix rest initial after read := by
    cases read
    exact suffix_refl rest
  nil := rfl
  cons token rest := by
    cases rest with
    | nil => rfl
    | cons comma rest =>
        cases rest with
        | nil => rfl
        | cons next rest => rfl

/-- The names of signals are read as a list with initial values. -/
theorem readsList_signals : ReadsList signalValue takeSignalNames where
  suffix rest initial after read := by
    have value := (takeInitial_suffix endsInitial _).trans (skipRanges_suffix rest)
    rwa [Option.some.inj read] at value
  nil := by rw [takeSignalNames]
  cons token rest := by rw [takeSignalNames]; rfl

/-- The names of parameters are read as a list in which a name without a value ends it. -/
theorem readsList_parameters : ReadsList parameterValue takeParameterNames where
  suffix rest initial after read := by
    unfold parameterValue at read
    split at read
    · cases read
      exact (takeUntil_suffix _ _ _).trans (drop_suffix 1 rest)
    · cases read
  nil := by rw [takeParameterNames]
  cons token rest := by
    rw [takeParameterNames, parameterValue, skipIf]
    cases token.isIdentifier with
    | false => rfl
    | true =>
        cases headIs (Token.isOperator "=") rest with
        | false => rfl
        | true => rfl

/-- A round of the loop over the connections of an instance: a comma, a named connection, or one by
position, which has to have a word. -/
def connectionRound (tokens : List Token) (cursor : Nat) : Round (String × String) :=
  match tokens.drop cursor with
  | [] => ⟨[], cursor, true⟩
  | token :: rest =>
    if token.isOperator ")" then ⟨[], cursor, true⟩
    else if token.isOperator "," then ⟨[], cursor + 1, false⟩
    else if token.isOperator "." then
      let port := (rest.head?.filter Token.isIdentifier).map (·.text)
      let net := takeParenthesised (skipIf Token.isIdentifier rest)
      ⟨[(port.getD "", joined net.1)], behind tokens (cursor + 1) net.2, false⟩
    else
      let net := takeUntil endsConnection 0 (token :: rest)
      if net.1.isEmpty then ⟨[], cursor, true⟩
      else ⟨[("", joined net.1)], behind tokens cursor net.2, false⟩

/-- **The rounds over connections take tokens**, up to the last one. -/
theorem connectionRound_unfolds (tokens : List Token) (start : Nat) :
    (connectionRound tokens start).Unfolds tokens takeConnections start := by
  unfold connectionRound
  cases here : tokens.drop start with
  | nil => exact .last (.refl tokens start) (by rw [here, takeConnections])
  | cons token rest =>
      have one := Moves.succ here
      have following := drop_succ here
      have inside := lt_length_of_drop here
      dsimp only
      split
      · rename_i closes
        exact .last (.refl tokens start) (by rw [here, takeConnections, if_pos closes])
      rename_i open_
      split
      · rename_i comma
        refine .next one inside (Nat.lt_succ_self start) ?_
        rw [here, takeConnections, if_neg open_, if_pos comma, following]
        rfl
      rename_i noComma
      split
      · rename_i dot
        have net := takes_behind here ((takeParenthesised_suffix _).trans
          (skipIf_suffix Token.isIdentifier rest))
        refine .next net.moves inside net.later ?_
        rw [here, takeConnections, if_neg open_, if_neg noComma, if_pos dot, net.left]
        rfl
      rename_i noDot
      have whole := length_takeUntil endsConnection 0 (token :: rest)
      split
      · rename_i none
        rw [List.isEmpty_iff.mp none] at whole
        refine .last (.refl tokens start) ?_
        rw [here, takeConnections, if_neg open_, if_neg noComma, if_neg noDot,
          if_neg (by rw [← whole]; simp)]
      · rename_i some
        -- The expression takes at least one word, so the cursor moves and the rounds end.
        have words := List.length_pos_iff.mpr (mt List.isEmpty_iff.mpr some)
        have fewer : (takeUntil endsConnection 0 (token :: rest)).2.length <
            (token :: rest).length := by
          omega
        have left := drop_behind (here.symm ▸ takeUntil_suffix endsConnection 0 (token :: rest) :
          (takeUntil endsConnection 0 (token :: rest)).2 <:+ tokens.drop start)
        have later : start < behind tokens start
            (takeUntil endsConnection 0 (token :: rest)).2 := by
          rw [behind_takeUntil endsConnection 0 here]
          exact Nat.lt_add_of_pos_right words
        refine .next (.behind tokens start _) inside later ?_
        rw [here, takeConnections, if_neg open_, if_neg noComma, if_neg noDot, if_pos fewer, left]
        rfl

end MiniVerilog.Source
