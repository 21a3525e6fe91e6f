import MiniVerilog.Token.Basic

/-! # Reading from the front of a token list

A reader takes tokens from the front of a list and gives what it read together
with the rest of the list. The rest is never longer, and the lemmas beside the
readers say so: they are what makes the recursive readers end.
-/

namespace MiniVerilog.Source

/-- The first token has a property. -/
def headIs (property : Token → Bool) (tokens : List Token) : Bool :=
  tokens.head?.any property

/-- The tokens without the first one, if that has a property. -/
def skipIf (property : Token → Bool) : List Token → List Token
  | [] => []
  | token :: rest => if property token then rest else token :: rest

/-- The tokens after the first `;` outside brackets. The statement also ends
before `endmodule`. -/
def skipStatement (depth : Int) : List Token → List Token
  | [] => []
  | token :: rest =>
    if token.isKeyword .endmodule then token :: rest
    else if token.isOperator ";" && depth ≤ 0 then rest
    else skipStatement (depth + token.nesting) rest

/-- The tokens after the first occurrence of a reserved word. -/
def skipPast (word : Keyword) : List Token → List Token
  | [] => []
  | token :: rest => if token.isKeyword word then rest else skipPast word rest

/-- The texts of the tokens before the first one outside brackets that has a
property, and the tokens from that one on. They also end before `endmodule`. -/
def takeUntil (stop : Token → Bool) (depth : Int) : List Token → List String × List Token
  | [] => ([], [])
  | token :: rest =>
    if token.isKeyword .endmodule || (depth ≤ 0 && stop token) then ([], token :: rest)
    else
      let (words, after) := takeUntil stop (depth + token.nesting) rest
      (token.text :: words, after)

/-- The words of a text in parentheses, which is empty when there are none. -/
def takeParenthesised (tokens : List Token) : List String × List Token :=
  if headIs (Token.isOperator "(") tokens then
    let (words, rest) := takeUntil (Token.isOperator ")") 0 (tokens.drop 1)
    (words, skipIf (Token.isOperator ")") rest)
  else ([], tokens)

/-- The words of the two bounds of a range. -/
structure Range where
  high : List String
  low : List String
  deriving DecidableEq, Repr

/-- Reads a range after its opening bracket. A range with one bound has no words
for the other. -/
def takeRange (tokens : List Token) : Range × List Token :=
  let (high, rest) :=
    takeUntil (fun token => token.isOperator ":" || token.isOperator "]") 0 tokens
  if headIs (Token.isOperator ":") rest then
    let (low, rest) := takeUntil (Token.isOperator "]") 0 (rest.drop 1)
    (⟨high, low⟩, skipIf (Token.isOperator "]") rest)
  else (⟨high, []⟩, skipIf (Token.isOperator "]") rest)

/-- Reads a range if there is one. -/
def takeRange? (tokens : List Token) : Option Range × List Token :=
  if headIs (Token.isOperator "[") tokens then
    let (range, rest) := takeRange (tokens.drop 1)
    (some range, rest)
  else (none, tokens)

/-- A comma goes on with a list of names only if a name follows it. -/
def commaContinues : List Token → Bool
  | comma :: next :: _ => comma.isOperator "," && next.isIdentifier
  | _ => false

/-- A reader leaves no more tokens than it was given. This and the lemmas below are what the
recursion of the readers ends by. -/
theorem length_skipIf_le (property : Token → Bool) (tokens : List Token) :
    (skipIf property tokens).length ≤ tokens.length := by
  unfold skipIf
  split
  · exact Nat.le_refl _
  · split <;> simp

theorem length_skipStatement_le (depth : Int) (tokens : List Token) :
    (skipStatement depth tokens).length ≤ tokens.length := by
  fun_induction skipStatement depth tokens <;> simp_all
  omega

theorem length_skipPast_le (word : Keyword) (tokens : List Token) :
    (skipPast word tokens).length ≤ tokens.length := by
  fun_induction skipPast word tokens <;> simp_all
  omega

theorem length_takeUntil_le (stop : Token → Bool) (depth : Int) (tokens : List Token) :
    (takeUntil stop depth tokens).2.length ≤ tokens.length := by
  fun_induction takeUntil stop depth tokens <;> simp_all
  omega

theorem length_takeParenthesised_le (tokens : List Token) :
    (takeParenthesised tokens).2.length ≤ tokens.length := by
  unfold takeParenthesised
  split
  · refine Nat.le_trans (length_skipIf_le _ _) (Nat.le_trans (length_takeUntil_le _ _ _) ?_)
    simp
  · exact Nat.le_refl _

/-- A range leaves no more tokens than there were, with one bound or with two. -/
theorem length_takeRange_le (tokens : List Token) :
    (takeRange tokens).2.length ≤ tokens.length := by
  have bounds := length_takeUntil_le
    (fun token => token.isOperator ":" || token.isOperator "]") 0 tokens
  simp only [takeRange]
  split
  · refine Nat.le_trans (length_skipIf_le _ _) (Nat.le_trans (length_takeUntil_le _ _ _) ?_)
    simp only [List.length_drop]
    omega
  · exact Nat.le_trans (length_skipIf_le _ _) bounds

theorem length_takeRange?_le (tokens : List Token) :
    (takeRange? tokens).2.length ≤ tokens.length := by
  unfold takeRange?
  split
  · exact Nat.le_trans (length_takeRange_le _) (by simp)
  · exact Nat.le_refl _

/-- The tokens after all ranges at the front. -/
def skipRanges (tokens : List Token) : List Token :=
  match tokens with
  | [] => []
  | token :: rest =>
    if token.isOperator "[" then skipRanges (takeRange rest).2 else token :: rest
termination_by tokens.length
decreasing_by
  have := length_takeRange_le rest
  simp only [List.length_cons]
  omega

/-- The ranges at the front leave no more tokens than there were. -/
theorem length_skipRanges_le (tokens : List Token) :
    (skipRanges tokens).length ≤ tokens.length := by
  fun_induction skipRanges tokens with
  | case1 => simp
  | case2 token rest _ ih =>
    have := length_takeRange_le rest
    simp only [List.length_cons]
    omega
  | case3 => simp

end MiniVerilog.Source
