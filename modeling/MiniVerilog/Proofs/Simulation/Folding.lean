import MiniVerilog.Proofs.Number.Decimal
import MiniVerilog.Proofs.Text.Words
import MiniVerilog.Simulation.Expression

/-! # Folding and evaluating chains

A chain of operands and operators is folded when it stands in a declaration. The evaluator has only
expressions of one operator, so it takes a chain link by link: the value so far is written in
decimal in front of the next operator and operand. A value that is written in decimal is read as
itself, also the least one (`MiniVerilog.Expression.signedLiteral?_toString`), and an operator that
folds does what it does in an expression (`MiniVerilog.Constant.combine?_eq_some_iff`). So a chain
folds to what it evaluates to (`MiniVerilog.Constant.fold_chain_iff`).
-/

namespace MiniVerilog

/-- The decimal text of a value is that of a number, perhaps with a minus sign before it. -/
inductive Value.IsWritten : Value → List Char → Prop
  | plain (number : Nat) : IsWritten (Int64.ofNat number) (toString number).toList
  | negative (number : Nat) : IsWritten (-Int64.ofNat number) ('-' :: (toString number).toList)

/-- Every value is written as the decimal text of a number, with a minus sign before it if the value
is negative. -/
theorem Value.isWritten (value : Value) : value.IsWritten (toString value).toList := by
  change value.IsWritten (toString value.toInt).toList
  have same : Int64.ofInt value.toInt = value := Int64.ofInt_toInt value
  cases number : value.toInt with
  | ofNat magnitude =>
      rw [number, Int.ofNat_eq_natCast, Int64.ofInt_eq_ofNat] at same
      exact same ▸ .plain magnitude
  | negSucc magnitude =>
      have text : (toString (Int.negSucc magnitude)).toList =
          '-' :: (toString (magnitude + 1)).toList := String.toList_append
      rw [number, Int.negSucc_eq, Int64.ofInt_neg, ← Int.natCast_succ, Int64.ofInt_eq_ofNat] at same
      rw [text]
      exact same ▸ .negative (magnitude + 1)

/-- The decimal text of a value is a word. -/
theorem Value.isWord_toString (value : Value) : Source.IsWord (toString value) := by
  have digit (number : Nat) : ∀ c ∈ (toString number).toList, Text.isBlank c = false :=
    fun _ => Text.isBlank_of_mem_toString
  have written := value.isWritten
  generalize text : (toString value).toList = cs at written
  have characters : cs ≠ [] ∧ ∀ c ∈ cs, Text.isBlank c = false := by
    cases written with
    | plain number =>
        refine ⟨?_, digit number⟩
        rw [Nat.toString_eq_repr, Nat.toList_repr]
        exact Nat.toDigits_ne_nil
    | negative number =>
        exact ⟨List.cons_ne_nil _ _, List.forall_mem_cons.mpr ⟨by decide, digit number⟩⟩
  rw [← text] at characters
  exact ⟨fun empty => characters.1 (congrArg String.toList empty), characters.2⟩

namespace Expression

/-- Without a minus sign a signed literal is a literal. -/
theorem signedLiteral?_eq_value? {word : String} (unsigned : word.toList.head? ≠ some '-') :
    signedLiteral? word = Literal.value? word := by
  unfold signedLiteral?
  split
  · rename_i minus
    rw [minus] at unsigned
    exact absurd rfl unsigned
  · rfl

/-- **A value that is written in decimal is read as itself**, also the least one, whose magnitude
is read as the least value again. -/
theorem signedLiteral?_toString (value : Value) : signedLiteral? (toString value) = some value := by
  have written := value.isWritten
  generalize text : (toString value).toList = cs at written
  cases written with
  | plain number =>
      have unsigned : (toString (Int64.ofNat number)).toList.head? ≠ some '-' := by
        intro minus
        rw [text] at minus
        exact absurd (mem_decimalDigits_of_mem (List.mem_of_head? minus)) (by decide)
      rw [signedLiteral?_eq_value? unsigned, Literal.value?, text]
      exact Literal.value?_toString number
  | negative number =>
      rw [signedLiteral?, text]
      exact congrArg (Option.map fun value => -value) (Literal.value?_toString number)

end Expression

namespace Constant

/-- An operator of a chain with the operand after it. -/
structure Link where
  operator : String
  operand : String
  deriving DecidableEq, Repr

/-- The words of a chain. -/
def chain (first : String) (links : List Link) : List String :=
  first :: links.flatMap fun link => [link.operator, link.operand]

/-- The words of a chain have no blanks and are no parentheses, and no operand starts with a minus
sign. -/
structure IsChain (first : String) (links : List Link) : Prop where
  areWords : ∀ word ∈ chain first links, Source.IsWord word
  noParentheses : ∀ word ∈ chain first links, word ≠ "(" ∧ word ≠ ")"
  unsigned : ∀ operand ∈ first :: links.map Link.operand, operand.toList.head? ≠ some '-'

/-- The value of an expression: the value so far in decimal, an operator and an operand. -/
def evaluateLink (lookup : String → Option Value) (value : Value) (link : Link) : Value :=
  Expression.evaluate lookup (toString value ++ " " ++ link.operator ++ " " ++ link.operand)

/-- The value of a chain that is evaluated from left to right. -/
def evaluateChain (lookup : String → Option Value) (first : String) (links : List Link) : Value :=
  links.foldl (evaluateLink lookup) (Expression.evaluate lookup first)

/-- An operator of constant expressions with a right operand in its range. -/
def Admits (operator : String) (right : Value) : Prop :=
  operator ∈ ["+", "-", "*"] ∨ operator = "/" ∧ right ≠ 0 ∨
    operator = "<<" ∧ 0 ≤ right ∧ right < 64

/-- The operand of a link has a value, and the operator admits it. -/
def Link.Folds (lookup : String → Option Value) (link : Link) : Prop :=
  ∃ right, operand? lookup link.operand = some right ∧ Admits link.operator right

/-- **An operator that folds does what it does in an expression.** -/
theorem combine?_eq_some_iff {left right value : Value} {operator : String} :
    combine? left operator right = some value ↔
      Admits operator right ∧ Expression.binary left operator right = value := by
  unfold combine?
  split
  case h_1 | h_2 | h_3 => simp [Admits, Expression.binary]
  case h_4 =>
    by_cases zero : right = 0
    · simp [Admits, zero]
    · simp [Admits, Expression.binary, zero]
  case h_5 =>
    by_cases range : 0 ≤ right ∧ right < 64
    · simp [Admits, Expression.binary, Value.shiftDistance?, range]
    · simp [Admits, Value.shiftDistance?, range]
  case h_6 sum difference product quotient shift =>
    refine iff_of_false (Option.some_ne_none value).symm ?_
    rintro ⟨known | ⟨known, -⟩ | ⟨known, -⟩, -⟩
    · simp only [List.mem_cons, List.not_mem_nil, or_false] at known
      rcases known with known | known | known
      · exact sum known
      · exact difference known
      · exact product known
    · exact quotient known
    · exact shift known

section Link

variable {lookup : String → Option Value} {word : String}

theorem operand_eq_getD (unsigned : word.toList.head? ≠ some '-') :
    Expression.operand lookup word = (operand? lookup word).getD 0 := by
  rw [Expression.operand, Expression.signedLiteral?_eq_value? unsigned, operand?]

theorem operand_toString (value : Value) : Expression.operand lookup (toString value) = value := by
  rw [Expression.operand, Expression.signedLiteral?_toString, Option.some_or, Option.getD_some]

/-- An expression of one word has the value of its operand. -/
theorem evaluate_word (isWord : Source.IsWord word) (unsigned : word.toList.head? ≠ some '-') :
    Expression.evaluate lookup word = (operand? lookup word).getD 0 := by
  have words : Text.wordsOf word = [word] := by
    rw [Text.wordsOf, Text.words_of_isWord isWord, List.map_singleton, String.ofList_toList]
  rw [Expression.evaluate, words, Expression.evaluateWords, operand_eq_getD unsigned]

/-- **A link of a chain is evaluated as its operator applied to the value so far**: the decimal text
in front is read back. -/
theorem evaluateLink_eq {link : Link} (isOperator : Source.IsWord link.operator)
    (isOperand : Source.IsWord link.operand) (unsigned : link.operand.toList.head? ≠ some '-')
    {right : Value} (known : operand? lookup link.operand = some right) (value : Value) :
    evaluateLink lookup value link = Expression.binary value link.operator right := by
  have text : toString value ++ " " ++ link.operator ++ " " ++ link.operand =
      Source.joined [toString value, link.operator, link.operand] := by
    simp only [Source.joined, String.intercalate_cons_cons, String.intercalate_singleton,
      String.append_assoc]
  have areWords : ∀ word ∈ [toString value, link.operator, link.operand], Source.IsWord word := by
    simp only [List.forall_mem_cons]
    exact ⟨value.isWord_toString, isOperator, isOperand, List.forall_mem_nil _⟩
  rw [evaluateLink, text, Expression.evaluate, Text.wordsOf_joined areWords,
    Expression.evaluateWords, operand_toString, operand_eq_getD unsigned, known, Option.getD_some]

end Link

variable {lookup : String → Option Value} {first : String} {link : Link} {links : List Link}

/-- What follows a link is a chain again. -/
theorem IsChain.tail (isChain : IsChain first (link :: links)) : IsChain link.operand links where
  areWords := fun word member =>
    isChain.areWords word (List.mem_cons_of_mem _ (List.mem_cons_of_mem _ member))
  noParentheses := fun word member =>
    isChain.noParentheses word (List.mem_cons_of_mem _ (List.mem_cons_of_mem _ member))
  unsigned := fun operand member => isChain.unsigned operand (List.mem_cons_of_mem _ member)

/-- The links of a chain are evaluated one by one. -/
theorem IsChain.evaluateLink_eq (isChain : IsChain first (link :: links)) {right : Value}
    (known : operand? lookup link.operand = some right) (value : Value) :
    evaluateLink lookup value link = Expression.binary value link.operator right :=
  Constant.evaluateLink_eq
    (isChain.areWords _ (List.mem_cons_of_mem _ List.mem_cons_self))
    (isChain.tail.areWords _ List.mem_cons_self)
    (isChain.tail.unsigned _ List.mem_cons_self) known value

/-- The links fold into a value if each of them does, and to what they evaluate to. -/
theorem foldFrom_eq_some_iff (isChain : IsChain first links) {start value : Value} :
    foldFrom lookup start (links.flatMap fun link => [link.operator, link.operand]) = some value ↔
      (∀ link ∈ links, link.Folds lookup) ∧ links.foldl (evaluateLink lookup) start = value := by
  induction links generalizing first start with
  | nil => simp [foldFrom]
  | cons link links ih =>
      have step (right : Value) (known : operand? lookup link.operand = some right) :=
        isChain.evaluateLink_eq known start
      change (operand? lookup link.operand).bind (fun right =>
        (combine? start link.operator right).bind fun next =>
          foldFrom lookup next (links.flatMap fun link => [link.operator, link.operand])) =
        some value ↔ _
      rw [List.forall_mem_cons, List.foldl_cons]
      constructor
      · intro folds
        obtain ⟨right, known, folds⟩ := Option.bind_eq_some_iff.mp folds
        obtain ⟨next, combined, folds⟩ := Option.bind_eq_some_iff.mp folds
        obtain ⟨admits, rfl⟩ := combine?_eq_some_iff.mp combined
        obtain ⟨others, evaluates⟩ := (ih isChain.tail).mp folds
        rw [step right known]
        exact ⟨⟨⟨right, known, admits⟩, others⟩, evaluates⟩
      · rintro ⟨⟨⟨right, known, admits⟩, others⟩, evaluates⟩
        rw [step right known] at evaluates
        rw [known, Option.bind_some, combine?_eq_some_iff.mpr ⟨admits, rfl⟩, Option.bind_some]
        exact (ih isChain.tail).mpr ⟨others, evaluates⟩

/-- **A chain folds to what it evaluates to from left to right.** It folds if its first operand has
a value and every link has an operand that its operator admits. -/
theorem fold_chain_iff (isChain : IsChain first links) (lookup : String → Option Value)
    (value : Value) :
    fold lookup (chain first links) = some value ↔
      (operand? lookup first).isSome = true ∧ (∀ link ∈ links, link.Folds lookup) ∧
        evaluateChain lookup first links = value := by
  have kept : (chain first links).filter (fun word => word != "(" && word != ")") =
      chain first links := by
    refine List.filter_eq_self.mpr fun word member => ?_
    rw [Bool.and_eq_true, bne_iff_ne, bne_iff_ne]
    exact isChain.noParentheses word member
  have start : Expression.evaluate lookup first = (operand? lookup first).getD 0 :=
    evaluate_word (isChain.areWords first List.mem_cons_self)
      (isChain.unsigned first List.mem_cons_self)
  rw [fold, kept, chain]
  change (operand? lookup first).bind (fun start => foldFrom lookup start
    (links.flatMap fun link => [link.operator, link.operand])) = some value ↔ _
  rw [evaluateChain, start]
  cases operand? lookup first with
  | none =>
      rw [Option.bind_none, Option.isSome_none]
      exact iff_of_false (Option.some_ne_none value).symm fun both => Bool.false_ne_true both.1
  | some start =>
      rw [Option.bind_some, foldFrom_eq_some_iff isChain]
      exact (and_iff_right rfl).symm

/-- The least value, which is divided by -1, written in decimal and shifted by nothing. -/
theorem fold_chain_iff_least :
    let lookup : String → Option Value := fun name => if name = "W" then some (-1) else none
    let links : List Link := [⟨"-", "64'h7fffffffffffffff"⟩, ⟨"-", "1"⟩, ⟨"/", "W"⟩, ⟨"<<", "'d0"⟩]
    IsChain "0" links ∧ fold lookup (chain "0" links) = some Int64.minValue ∧
      evaluateChain lookup "0" links = Int64.minValue := by
  intro lookup links
  have isChain : IsChain "0" links := ⟨by decide, by decide, by decide⟩
  have folds : fold lookup (chain "0" links) = some Int64.minValue := by decide +kernel
  exact ⟨isChain, folds, ((fold_chain_iff isChain lookup _).mp folds).2.2⟩

end Constant

end MiniVerilog
