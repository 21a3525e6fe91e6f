import MiniVerilog.Proofs.Source.Suffix

/-! # Passes over a token list

The readers take tokens from the front of what is left. Here the same reading is told by a cursor,
the place in the whole list that it has come to. On its way the cursor comes to the ends of the
rounds of loops and to nested calls, and these moments make the trail of a pass. A trail goes
forward if the cursor never moves back from one moment to the next, every round that does not leave
its loop takes a token, and every nested call comes after a token (`MiniVerilog.Source.Forward`). A
loop without nested calls is told by its rounds, and it comes to an end when they take tokens
(`MiniVerilog.Source.exists_rounds`).
-/

namespace MiniVerilog.Source

variable {tokens : List Token}

/-- Where a reader that starts at a cursor stops when it leaves a rest. -/
def behind (tokens : List Token) (cursor : Nat) (rest : List Token) : Nat :=
  cursor + ((tokens.drop cursor).length - rest.length)

theorem drop_behind {cursor : Nat} {rest : List Token} (suffix : rest <:+ tokens.drop cursor) :
    tokens.drop (behind tokens cursor rest) = rest := by
  rw [behind, ← List.drop_drop]
  exact (List.suffix_iff_eq_drop.mp suffix).symm

theorem lt_length_of_drop {cursor : Nat} {first : Token} {rest : List Token}
    (here : tokens.drop cursor = first :: rest) : cursor < tokens.length := by
  by_contra beyond
  rw [List.drop_eq_nil_of_le (Nat.not_lt.mp beyond)] at here
  cases here

theorem drop_succ {cursor : Nat} {first : Token} {rest : List Token}
    (here : tokens.drop cursor = first :: rest) : tokens.drop (cursor + 1) = rest := by
  rw [← List.drop_drop, here]
  rfl

/-- A list whose first token has a property has a first token. -/
theorem exists_cons_of_headIs {property : Token → Bool} {tokens : List Token}
    (head : headIs property tokens = true) : ∃ first rest, tokens = first :: rest := by
  cases tokens with
  | nil => cases head
  | cons first rest => exact ⟨first, rest, rfl⟩

/-- The cursor moves on, and at most one step beyond the end of the tokens. -/
structure Moves (tokens : List Token) (start stop : Nat) : Prop where
  le : start ≤ stop
  within : stop ≤ max start (tokens.length + 1)

theorem Moves.refl (tokens : List Token) (cursor : Nat) : Moves tokens cursor cursor :=
  ⟨Nat.le_refl _, Nat.le_max_left _ _⟩

theorem Moves.trans {start middle stop : Nat} (first : Moves tokens start middle)
    (second : Moves tokens middle stop) : Moves tokens start stop := by
  refine ⟨Nat.le_trans first.le second.le, Nat.le_trans second.within ?_⟩
  exact Nat.max_le.mpr ⟨first.within, Nat.le_max_right _ _⟩

/-- A token is taken. -/
theorem Moves.succ {cursor : Nat} {first : Token} {rest : List Token}
    (here : tokens.drop cursor = first :: rest) : Moves tokens cursor (cursor + 1) :=
  ⟨Nat.le_succ _,
    Nat.le_trans (Nat.succ_le_succ (lt_length_of_drop here).le) (Nat.le_max_right _ _)⟩

theorem Moves.succ_of_headIs {cursor : Nat} {property : Token → Bool}
    (head : headIs property (tokens.drop cursor) = true) : Moves tokens cursor (cursor + 1) := by
  obtain ⟨first, rest, here⟩ := exists_cons_of_headIs head
  exact .succ here

theorem Moves.two {cursor : Nat} {first second : Token} {rest : List Token}
    (here : tokens.drop cursor = first :: second :: rest) : Moves tokens cursor (cursor + 2) :=
  (Moves.succ here).trans (.succ (drop_succ here))

/-- The cursor moves on to where a reader stops. -/
theorem Moves.behind (tokens : List Token) (cursor : Nat) (rest : List Token) :
    Moves tokens cursor (behind tokens cursor rest) := by
  refine ⟨Nat.le_add_right _ _, ?_⟩
  rw [Source.behind, List.length_drop]
  omega

theorem Moves.of_eq_behind {start stop : Nat} {rest : List Token}
    (stops : stop = Source.behind tokens start rest) : Moves tokens start stop :=
  stops ▸ Moves.behind tokens start rest

/-- The cursor stops behind the words that were read. -/
theorem behind_takeUntil (stop : Token → Bool) (depth : Int) {cursor : Nat} {rest : List Token}
    (here : tokens.drop cursor = rest) :
    behind tokens cursor (takeUntil stop depth rest).2 =
      cursor + (takeUntil stop depth rest).1.length := by
  have whole := length_takeUntil stop depth rest
  rw [behind, here]
  omega

/-- On the way to a stop that leaves a rest the cursor takes a token. -/
structure Takes (tokens : List Token) (start stop : Nat) (rest : List Token) : Prop where
  moves : Moves tokens start stop
  later : start < stop
  left : tokens.drop stop = rest

/-- A reader that starts behind a token. -/
theorem takes_behind {start : Nat} {first : Token} {others rest : List Token}
    (here : tokens.drop start = first :: others) (suffix : rest <:+ others) :
    Takes tokens start (behind tokens (start + 1) rest) rest := by
  have moves := Moves.behind tokens (start + 1) rest
  refine ⟨(Moves.succ here).trans moves, Nat.lt_of_succ_le moves.le, drop_behind ?_⟩
  rwa [drop_succ here]

theorem Takes.of_eq_behind {start stop : Nat} {first : Token} {others rest : List Token}
    (stops : stop = behind tokens (start + 1) rest) (here : tokens.drop start = first :: others)
    (suffix : rest <:+ others) : Takes tokens start stop rest :=
  stops ▸ takes_behind here suffix

/-- The loops of the readers. The search for the header and the items of a module are one loop. -/
inductive Loop where
  | module | headerParameters | portNames | signalNames | parameterNames | connections
  | block | caseItems
  deriving DecidableEq, Repr

/-- What calls the reader of statements inside a statement. -/
inductive Caller where
  | delay | block | branch | caseItems | loop
  deriving DecidableEq, Repr

/-- What the cursor comes to: the end of a round of a loop, or a nested call of the reader of
statements, with the cursor at which the caller started. -/
inductive Moment where
  | round (loop : Loop) (start stop : Nat) (leaves : Bool)
  | call (caller : Caller) (entered cursor : Nat)
  deriving DecidableEq, Repr

namespace Moment

/-- Where the cursor is. -/
def cursor : Moment → Nat
  | round _ _ stop _ => stop
  | call _ _ cursor => cursor

/-- The round takes a token or leaves the loop; the call comes after a token of the caller. -/
def Advances : Moment → Prop
  | round _ start stop leaves => start ≤ stop ∧ (leaves = false → start < stop)
  | call _ entered cursor => entered < cursor

/-- A round that leaves its loop need not take a token. -/
theorem Advances.leaving {loop : Loop} {start stop : Nat} (le : start ≤ stop) :
    (round loop start stop true).Advances :=
  ⟨le, nofun⟩

theorem Advances.taking {loop : Loop} {start stop : Nat} {leaves : Bool} (later : start < stop) :
    (round loop start stop leaves).Advances :=
  ⟨later.le, fun _ => later⟩

end Moment

/-- The cursor goes from a start over the moments of a trail to a stop and never moves back, and
every moment advances. -/
def Forward (tokens : List Token) : Nat → List Moment → Nat → Prop
  | start, [], stop => Moves tokens start stop
  | start, moment :: trail, stop =>
    Moves tokens start moment.cursor ∧ moment.Advances ∧ Forward tokens moment.cursor trail stop

namespace Forward

variable {start middle stop : Nat} {trail others : List Moment}

/-- What goes forward after a move goes forward from before it. -/
theorem after (moves : Moves tokens start middle) (forward : Forward tokens middle trail stop) :
    Forward tokens start trail stop := by
  cases trail with
  | nil => exact moves.trans forward
  | cons moment trail => exact ⟨moves.trans forward.1, forward.2⟩

/-- Two trails are one. -/
theorem append (first : Forward tokens start trail middle)
    (second : Forward tokens middle others stop) :
    Forward tokens start (trail ++ others) stop := by
  induction trail generalizing start with
  | nil => exact after first second
  | cons moment trail ih => exact ⟨first.1, first.2.1, ih first.2.2⟩

theorem finish (forward : Forward tokens start trail middle) (moves : Moves tokens middle stop) :
    Forward tokens start trail stop := by
  have whole : Forward tokens start (trail ++ []) stop := forward.append moves
  rwa [List.append_nil] at whole

theorem moves (forward : Forward tokens start trail stop) : Moves tokens start stop := by
  induction trail generalizing start with
  | nil => exact forward
  | cons moment trail ih => exact forward.1.trans (ih forward.2.2)

/-- Every moment of what goes forward advances. -/
theorem advances (forward : Forward tokens start trail stop) :
    ∀ moment ∈ trail, moment.Advances := by
  induction trail generalizing start with
  | nil => exact List.forall_mem_nil _
  | cons moment trail ih => exact List.forall_mem_cons.mpr ⟨forward.2.1, ih forward.2.2⟩

/-- The cursors of a trail never decrease. -/
theorem isChain (forward : Forward tokens start trail stop) :
    (start :: (trail.map Moment.cursor ++ [stop])).IsChain (· ≤ ·) := by
  induction trail generalizing start with
  | nil => exact List.isChain_cons_cons.mpr ⟨forward.le, List.IsChain.singleton stop⟩
  | cons moment trail ih => exact List.isChain_cons_cons.mpr ⟨forward.1.le, ih forward.2.2⟩

end Forward

/-- A reader that goes forward behind a token takes that token. -/
theorem Takes.forward {start next middle stop : Nat} {rest : List Token} {trail : List Moment}
    (entry : Takes tokens start next rest) (inside : Forward tokens next trail middle)
    (closing : Moves tokens middle stop) : Forward tokens start trail stop ∧ start < stop :=
  ⟨(inside.after entry.moves).finish closing,
    Nat.lt_of_lt_of_le entry.later (inside.finish closing).moves.le⟩

/-- What one round of a loop reads, where it stops, and whether it leaves the loop. -/
structure Round (α : Type) where
  read : List α
  stop : Nat
  leaves : Bool

/-- The rounds of a loop from a cursor up to the one that leaves it, with all that is read. -/
inductive Rounds {α : Type} (loop : Loop) (round : Nat → Round α) :
    Nat → List α → List Moment → Nat → Prop
  | last {start stop : Nat} {read : List α} (here : round start = ⟨read, stop, true⟩) :
    Rounds loop round start read [.round loop start stop true] stop
  | next {start middle stop : Nat} {read others : List α} {trail : List Moment}
    (here : round start = ⟨read, middle, false⟩)
    (following : Rounds loop round middle others trail stop) :
    Rounds loop round start (read ++ others) (.round loop start middle false :: trail) stop

/-- A round from a cursor is one step of a reader. It moves on, and it takes a token if it does not
leave the loop. -/
inductive Round.Unfolds {α : Type} (tokens : List Token)
    (take : List Token → List α × List Token) (start : Nat) : Round α → Prop
  | last {read : List α} {stop : Nat} (moves : Moves tokens start stop)
    (reads : take (tokens.drop start) = (read, tokens.drop stop)) :
    Unfolds tokens take start ⟨read, stop, true⟩
  | next {read : List α} {stop : Nat} (moves : Moves tokens start stop)
    (inside : start < tokens.length) (later : start < stop)
    (reads : take (tokens.drop start) =
      (read ++ (take (tokens.drop stop)).1, (take (tokens.drop stop)).2)) :
    Unfolds tokens take start ⟨read, stop, false⟩

section Rounds

variable {α : Type} {loop : Loop} {round : Nat → Round α}
  {take : List Token → List α × List Token}
  (unfolds : ∀ cursor, (round cursor).Unfolds tokens take cursor)

include unfolds

/-- **The rounds of a loop go forward**, from the start of the first one to the stop of the one that
leaves it. -/
theorem Rounds.forward {start stop : Nat} {read : List α} {trail : List Moment}
    (rounds : Rounds loop round start read trail stop) : Forward tokens start trail stop := by
  induction rounds with
  | @last start stop read here =>
      have step := unfolds start
      rw [here] at step
      cases step with
      | last moves => exact ⟨moves, .leaving moves.le, .refl tokens stop⟩
  | @next start middle stop read others trail here following ih =>
      have step := unfolds start
      rw [here] at step
      cases step with
      | next moves inside later => exact ⟨moves, .taking later, ih⟩

/-- If the first round takes a token, then so does the loop. -/
theorem Rounds.lt_of_first {start stop : Nat} {read : List α} {trail : List Moment}
    (rounds : Rounds loop round start read trail stop) (first : start < (round start).stop) :
    start < stop := by
  cases rounds with
  | last here =>
      rw [here] at first
      exact first
  | next here following =>
      rw [here] at first
      exact Nat.lt_of_lt_of_le first (following.forward unfolds).moves.le

/-- The rounds read what the reader reads. -/
theorem Rounds.reads {start stop : Nat} {read : List α} {trail : List Moment}
    (rounds : Rounds loop round start read trail stop) :
    take (tokens.drop start) = (read, tokens.drop stop) := by
  induction rounds with
  | @last start stop read here =>
      have step := unfolds start
      rw [here] at step
      cases step with
      | last moves reads => exact reads
  | @next start middle stop read others trail here following ih =>
      have step := unfolds start
      rw [here] at step
      cases step with
      | next moves inside later reads => rw [reads, ih]

/-- **A loop whose rounds take tokens ends.** -/
theorem exists_rounds (loop : Loop) (start : Nat) :
    ∃ read trail stop, Rounds loop round start read trail stop := by
  induction left : tokens.length - start using Nat.strong_induction_on generalizing start with
  | _ left ih =>
      have step := unfolds start
      cases here : round start with
      | mk read stop leaves =>
          rw [here] at step
          cases step with
          | last => exact ⟨_, _, _, .last here⟩
          | next moves inside later reads =>
              obtain ⟨others, trail, final, following⟩ := ih _ (by omega) stop rfl
              exact ⟨_, _, _, .next here following⟩

end Rounds

end MiniVerilog.Source
