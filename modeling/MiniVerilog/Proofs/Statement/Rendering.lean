import MiniVerilog.Proofs.Module.Place
import MiniVerilog.Proofs.Source.Names
import MiniVerilog.Proofs.Source.Standing

/-! # Rendered statements are read back

The text of a statement leaves out `begin` and `end` around a body of one statement. Such
a text is read back as the same tree if every text in it stands on its own and no `else`
follows a body that would take it (`MiniVerilog.StatementTree.text_reads`).
-/

namespace MiniVerilog

open Source (word mark codeTokens headIs opensStatement tokensBefore)
open Token (Delimited IsLexeme)

/-- A name that is read as the target of an assignment. -/
structure Source.IsTargetName (name : String) : Prop where
  lexeme : IsLexeme .identifier name
  noCase : Source.isCaseVariant ⟨.identifier, name, 0, 0⟩ = false

namespace StatementTree

mutual

/-- An `else` after the text of the statement is read as a part of it. -/
def openEnded : StatementTree → Bool
  | branch _ _ elseBody => elseBody.isEmpty || bodyOpenEnded elseBody
  | _ => false

/-- An `else` after the text of the body is read as a part of it. -/
def bodyOpenEnded : List StatementTree → Bool
  | tree :: [] => openEnded tree
  | _ => false

end

/-- The next alternative starts with an `else`. -/
def startWithElse : List (List String × List StatementTree) → Bool
  | [] => false
  | (labels, _) :: _ => headIs (Token.isKeyword .else_) (tokensBefore ':' (", ".intercalate labels))

mutual

/-- Every text in the statement stands on its own, and every `else` belongs to the
statement that it is written for. -/
def readsBack : StatementTree → Bool
  | missing => false
  | assign _ expression _ _ => Source.rightSideStands expression
  | branch condition thenBody elseBody =>
    Source.conditionStands condition && bodyReadsBack thenBody && bodyReadsBack elseBody &&
      (elseBody.isEmpty || !bodyOpenEnded thenBody)
  | select subject arms otherwise =>
    Source.conditionStands subject && armsReadBack arms && bodyReadsBack otherwise

def bodyReadsBack : List StatementTree → Bool
  | [] => true
  | tree :: body => readsBack tree && bodyReadsBack body

def armsReadBack : List (List String × List StatementTree) → Bool
  | [] => true
  | (labels, body) :: arms =>
    Source.labelsStand labels && bodyReadsBack body && armsReadBack arms &&
      !(bodyOpenEnded body && startWithElse arms)

end

/-- The default body of a case statement and its `endcase`, each after a space. -/
def closing (otherwise : List StatementTree) : String :=
  (if otherwise.isEmpty then "" else " default: " ++ bodyText (texts otherwise)) ++ " endcase"

/-- The text of a case statement in three pieces: its head, the alternatives, and the default with
`endcase`. -/
theorem text_select (subject : String) (arms : List (List String × List StatementTree))
    (otherwise : List StatementTree) :
    text (.select subject arms otherwise) =
      "case (" ++ subject ++ ")" ++ armsText arms ++ closing otherwise := by
  rw [text, closing, String.append_assoc]

theorem delimited_space (after : List Char) : Delimited (' ' :: after) :=
  Delimited.cons (by decide) after

section Lines

variable (after : List Char)

/-- The characters of an assignment before some other text, in the order in which they are scanned.
The same is stated below for every kind of statement. -/
theorem toList_assign (target expression : String) (blocking : Bool) (line : Nat) :
    (text (.assign target expression blocking line)).toList ++ after =
      target.toList ++ ' ' :: ((if blocking then "=" else "<=").toList ++
        ' ' :: (expression.toList ++ ';' :: after)) := by
  cases blocking <;> simp only [text, String.toList_append, List.append_assoc] <;> rfl

/-- The characters of a branch without an else part. -/
theorem toList_branch (condition : String) (thenBody : List StatementTree) :
    (text (.branch condition thenBody [])).toList ++ after =
      Keyword.if_.spelling.toList ++ ' ' :: '(' :: (condition.toList ++
        ')' :: ' ' :: ((bodyText (texts thenBody)).toList ++ after)) := by
  simp only [text, List.isEmpty_nil, ↓reduceIte, String.toList_append, List.append_assoc]
  rfl

/-- The characters of a branch with an else part. -/
theorem toList_branch_else (condition : String) (thenBody : List StatementTree)
    (tree : StatementTree) (elseBody : List StatementTree) :
    (text (.branch condition thenBody (tree :: elseBody))).toList ++ after =
      Keyword.if_.spelling.toList ++ ' ' :: '(' :: (condition.toList ++
        ')' :: ' ' :: ((bodyText (texts thenBody)).toList ++
          ' ' :: (Keyword.else_.spelling.toList ++
            ' ' :: ((bodyText (texts (tree :: elseBody))).toList ++ after)))) := by
  simp only [text, List.isEmpty_cons, Bool.false_eq_true, ↓reduceIte, String.toList_append,
    List.append_assoc]
  rfl

/-- The characters of a case statement. -/
theorem toList_select (subject : String) (arms : List (List String × List StatementTree))
    (otherwise : List StatementTree) :
    (text (.select subject arms otherwise)).toList ++ after =
      Keyword.case_.spelling.toList ++ ' ' :: '(' :: (subject.toList ++
        ')' :: ((armsText arms).toList ++ ((closing otherwise).toList ++ after))) := by
  simp only [text_select, String.toList_append, List.append_assoc]
  rfl

theorem toList_closing_nil : (closing []).toList ++ after =
    ' ' :: (Keyword.endcase.spelling.toList ++ after) :=
  rfl

/-- The characters of a default with a body, up to `endcase`. -/
theorem toList_closing_cons (tree : StatementTree) (otherwise : List StatementTree) :
    (closing (tree :: otherwise)).toList ++ after =
      ' ' :: (Keyword.default_.spelling.toList ++ ':' :: ' ' ::
        ((bodyText (texts (tree :: otherwise))).toList ++
          ' ' :: (Keyword.endcase.spelling.toList ++ after))) := by
  simp only [closing, List.isEmpty_cons, Bool.false_eq_true, ↓reduceIte, String.toList_append,
    List.append_assoc]
  rfl

/-- The characters of the first alternative before those of the others. -/
theorem toList_armsText_cons (labels : List String) (body : List StatementTree)
    (arms : List (List String × List StatementTree)) :
    (armsText ((labels, body) :: arms)).toList ++ after =
      ' ' :: ((", ".intercalate labels).toList ++ ':' :: ' ' ::
        ((bodyText (texts body)).toList ++ ((armsText arms).toList ++ after))) := by
  simp only [armsText, String.toList_append, List.append_assoc]
  rfl

/-- The characters of statements between `begin` and `end`. -/
theorem toList_block (texts : List String) :
    ("begin " ++ " ".intercalate texts ++ " end").toList ++ after =
      Keyword.begin_.spelling.toList ++ ' ' :: ((Source.joined texts).toList ++
        ' ' :: (Keyword.end_.spelling.toList ++ after)) := by
  simp only [String.toList_append, List.append_assoc]
  rfl

/-- The end of a case statement starts with a space, which ends what stands before it. -/
theorem delimited_closing (otherwise : List StatementTree) :
    Delimited ((closing otherwise).toList ++ after) := by
  cases otherwise with
  | nil => exact delimited_space _
  | cons tree otherwise =>
      rw [toList_closing_cons]
      exact delimited_space _

/-- What follows the head of a case statement starts with a space. -/
theorem delimited_arms (arms : List (List String × List StatementTree))
    (otherwise : List StatementTree) :
    Delimited ((armsText arms).toList ++ ((closing otherwise).toList ++ after)) := by
  cases arms with
  | nil => exact delimited_closing after otherwise
  | cons arm arms =>
      rw [toList_armsText_cons]
      exact delimited_space _

end Lines

section Heads

variable {after : List Char}

/-- The text of a statement starts with a token that opens a statement. -/
theorem headIs_text {tree : StatementTree} (reads : tree.readsBack = true)
    (named : ∀ name ∈ tree.targets, Source.IsTargetName name) (after : List Char) :
    headIs opensStatement (codeTokens (tree.text.toList ++ after)) = true := by
  cases tree with
  | missing => cases reads
  | assign target expression blocking line =>
      have name := (named target List.mem_cons_self).lexeme
      rw [toList_assign,
        Source.codeTokens_lexeme name (fun same => nomatch same) (delimited_space _)]
      rfl
  | branch condition thenBody elseBody =>
      cases elseBody with
      | nil =>
          rw [toList_branch, Source.codeTokens_word _ (delimited_space _)]
          rfl
      | cons tree elseBody =>
          rw [toList_branch_else, Source.codeTokens_word _ (delimited_space _)]
          rfl
  | select subject arms otherwise =>
      rw [toList_select, Source.codeTokens_word _ (delimited_space _)]
      rfl

/-- No `else` follows the alternatives of a case statement. -/
theorem headIs_closing (otherwise : List StatementTree) (delimited : Delimited after) :
    headIs (Token.isKeyword .else_) (codeTokens ((closing otherwise).toList ++ after)) = false := by
  cases otherwise with
  | nil =>
      rw [toList_closing_nil, Source.codeTokens_blank, Source.codeTokens_word _ delimited]
      rfl
  | cons tree otherwise =>
      rw [toList_closing_cons, Source.codeTokens_blank,
        Source.codeTokens_word _ (Delimited.cons (by decide) _)]
      rfl

/-- No `else` follows an arm unless the labels of the next one start with it. -/
theorem headIs_arms {arms : List (List String × List StatementTree)}
    (reads : armsReadBack arms = true) (noElse : startWithElse arms = false)
    (otherwise : List StatementTree) (delimited : Delimited after) :
    headIs (Token.isKeyword .else_)
      (codeTokens ((armsText arms).toList ++ ((closing otherwise).toList ++ after))) = false := by
  cases arms with
  | nil => exact headIs_closing otherwise delimited
  | cons arm arms =>
      obtain ⟨labels, body⟩ := arm
      simp only [armsReadBack, Bool.and_eq_true] at reads
      rw [toList_armsText_cons, Source.codeTokens_blank,
        Source.headIs_of_labelsStand reads.1.1.1 (delimited_space _)]
      exact noElse

end Heads

section Rules

variable {after : List Char} {condition : String} {thenBody elseBody body : List StatementTree}
  {arms : List (List String × List StatementTree)} {trees elseTrees : List StatementTree}
  {otherwise : List StatementTree}

/-- **The text of an assignment is read back** if its target is a name and its right side stands on
its own. -/
theorem assign_reads {target expression : String} (name : Source.IsTargetName target)
    (stands : Source.rightSideStands expression = true) (blocking : Bool) (line : Nat)
    (delimited : Delimited after) :
    Source.StatementReads
      (codeTokens ((text (.assign target expression blocking line)).toList ++ after))
      [.assign target expression blocking 0] (codeTokens after) := by
  have operator : IsLexeme .operator (if blocking then "=" else "<=") := by
    cases blocking
    · exact Token.isLexeme_operator "<=" (by decide)
    · exact Token.isLexeme_operator "=" (by decide)
  have right := Source.takeRightSide_of_stands stands delimited
  rw [toList_assign, Source.codeTokens_lexeme name.lexeme (fun same => nomatch same)
    (delimited_space _), Source.codeTokens_blank, Source.codeTokens_lexeme operator
    (fun same => nomatch same) (delimited_space _), Source.codeTokens_blank]
  exact Source.StatementReads.assign rfl name.noCase blocking right

/-- **A branch without an else part is read back** if its body is and no `else` follows. -/
theorem branch_reads (stands : Source.conditionStands condition = true)
    (noElse : headIs (Token.isKeyword .else_) (codeTokens after) = false)
    (thenPart : Source.StatementReads
      (codeTokens ((bodyText (texts thenBody)).toList ++ after)) trees (codeTokens after)) :
    Source.StatementReads (codeTokens ((text (.branch condition thenBody [])).toList ++ after))
      [.branch condition trees []] (codeTokens after) := by
  obtain ⟨words, taken, same⟩ := Source.takeParenthesised_of_stands stands (delimited_space _)
  rw [Source.codeTokens_blank] at taken
  rw [toList_branch, Source.codeTokens_word _ (delimited_space _), Source.codeTokens_blank]
  have read := Source.StatementReads.branch taken thenPart noElse
  rw [same] at read
  exact read

/-- **A branch with an else part is read back** if its bodies are. The first one is read before the
`else`, so it must be read back whatever follows. -/
theorem branch_else_reads (stands : Source.conditionStands condition = true) {tree : StatementTree}
    (thenPart : ∀ last, Delimited last → Source.StatementReads
      (codeTokens ((bodyText (texts thenBody)).toList ++ last)) trees (codeTokens last))
    (elsePart : Source.StatementReads
      (codeTokens ((bodyText (texts (tree :: elseBody))).toList ++ after)) elseTrees
      (codeTokens after)) :
    Source.StatementReads
      (codeTokens ((text (.branch condition thenBody (tree :: elseBody))).toList ++ after))
      [.branch condition trees elseTrees] (codeTokens after) := by
  obtain ⟨words, taken, same⟩ := Source.takeParenthesised_of_stands stands (delimited_space _)
  have thenPart := thenPart _ (delimited_space (Keyword.else_.spelling.toList ++
    ' ' :: ((bodyText (texts (tree :: elseBody))).toList ++ after)))
  rw [Source.codeTokens_blank, Source.codeTokens_word _ (delimited_space _),
    Source.codeTokens_blank] at thenPart
  rw [Source.codeTokens_blank] at taken
  rw [toList_branch_else, Source.codeTokens_word _ (delimited_space _), Source.codeTokens_blank]
  have read := Source.StatementReads.branch_else taken thenPart elsePart
  rw [same] at read
  exact read

/-- **A case statement is read back** if its subject stands on its own and its entries are read
back. -/
theorem select_reads (stands : Source.conditionStands condition = true)
    {armTrees : List (List String × List StatementTree)}
    (items : Source.ItemsRead
      (codeTokens ((armsText arms).toList ++ ((closing otherwise).toList ++ after))) armTrees trees
      (codeTokens after)) :
    Source.StatementReads (codeTokens ((text (.select condition arms otherwise)).toList ++ after))
      [.select condition armTrees trees] (codeTokens after) := by
  obtain ⟨words, taken, same⟩ :=
    Source.takeParenthesised_of_stands stands (delimited_arms after arms otherwise)
  rw [toList_select, Source.codeTokens_word _ (delimited_space _), Source.codeTokens_blank]
  have read := Source.StatementReads.select taken items
  rw [same] at read
  exact read

/-- **A block is read back** if its statements are and no label is read after `begin`. -/
theorem block_reads {statements : List String}
    (noLabel : headIs (Token.isOperator ":") (codeTokens ((Source.joined statements).toList ++
      ' ' :: (Keyword.end_.spelling.toList ++ after))) = false)
    (block : Source.BlockReads (codeTokens ((Source.joined statements).toList ++
      ' ' :: (Keyword.end_.spelling.toList ++ after))) trees (codeTokens after)) :
    Source.StatementReads
      (codeTokens (("begin " ++ " ".intercalate statements ++ " end").toList ++ after)) trees
      (codeTokens after) := by
  rw [toList_block, Source.codeTokens_word _ (delimited_space _), Source.codeTokens_blank]
  exact Source.StatementReads.block block noLabel

theorem closing_reads_nil (delimited : Delimited after) :
    Source.ItemsRead (codeTokens ((closing []).toList ++ after)) [] [] (codeTokens after) := by
  rw [toList_closing_nil, Source.codeTokens_blank, Source.codeTokens_word _ delimited]
  exact Source.ItemsRead.endcase _

/-- A default is read back if its body is, before the `endcase`. -/
theorem closing_reads_cons {tree : StatementTree} (delimited : Delimited after)
    (bodyReads : ∀ last, Delimited last →
      headIs (Token.isKeyword .else_) (codeTokens last) = false →
      Source.StatementReads (codeTokens ((bodyText (texts (tree :: otherwise))).toList ++ last))
        trees (codeTokens last)) :
    Source.ItemsRead (codeTokens ((closing (tree :: otherwise)).toList ++ after)) [] trees
      (codeTokens after) := by
  have ends : codeTokens (' ' :: (Keyword.endcase.spelling.toList ++ after)) =
      word .endcase :: codeTokens after := by
    rw [Source.codeTokens_blank, Source.codeTokens_word _ delimited]
  have bodyReads := bodyReads _ (delimited_space (Keyword.endcase.spelling.toList ++ after))
    (by rw [ends]; rfl)
  rw [ends] at bodyReads
  rw [toList_closing_cons, Source.codeTokens_blank,
    Source.codeTokens_word _ (Delimited.cons (by decide) _), Source.codeTokens_mark (by decide),
    Source.codeTokens_blank]
  exact Source.ItemsRead.default bodyReads

/-- An alternative is read back before others if its labels stand on their own and its body is read
back. -/
theorem arm_reads {labels : List String} (stand : Source.labelsStand labels = true)
    {armTrees : List (List String × List StatementTree)} {last : List Char}
    (bodyReads : Source.StatementReads
      (codeTokens ((bodyText (texts body)).toList ++ ((armsText arms).toList ++ last))) trees
      (codeTokens ((armsText arms).toList ++ last)))
    (items : Source.ItemsRead (codeTokens ((armsText arms).toList ++ last)) armTrees otherwise
      (codeTokens after)) :
    Source.ItemsRead (codeTokens ((armsText ((labels, body) :: arms)).toList ++ last))
      ((labels, trees) :: armTrees) otherwise (codeTokens after) := by
  obtain ⟨first, tokens, words, line, noDefault, labelled, same⟩ :=
    Source.takeUntil_of_labelsStand stand
      (delimited_space ((bodyText (texts body)).toList ++ ((armsText arms).toList ++ last)))
  rw [Source.codeTokens_blank] at labelled
  rw [toList_armsText_cons, Source.codeTokens_blank, line]
  have read := Source.ItemsRead.arm noDefault labelled bodyReads items
  rw [same] at read
  exact read

/-- The line of a body in a block, up to its `end`. -/
def blockLine (body : List StatementTree) (after : List Char) : List Char :=
  (Source.joined (texts body)).toList ++ ' ' :: (Keyword.end_.spelling.toList ++ after)

theorem codeTokens_blockLine_nil (delimited : Delimited after) :
    codeTokens (blockLine [] after) = word .end_ :: codeTokens after := by
  change codeTokens (' ' :: (Keyword.end_.spelling.toList ++ after)) = _
  rw [Source.codeTokens_blank, Source.codeTokens_word _ delimited]

/-- The text of the first statement is followed by that of the others or by `end`. -/
theorem codeTokens_blockLine_cons (first : StatementTree) (others : List StatementTree)
    (after : List Char) :
    ∃ last, Delimited last ∧ blockLine (first :: others) after = first.text.toList ++ last ∧
      codeTokens last = codeTokens (blockLine others after) := by
  cases others with
  | nil =>
      exact ⟨' ' :: (Keyword.end_.spelling.toList ++ after), delimited_space _, rfl, rfl⟩
  | cons second others =>
      refine ⟨' ' :: blockLine (second :: others) after, delimited_space _, ?_,
        Source.codeTokens_blank _⟩
      rw [blockLine, blockLine, texts, texts, Source.joined_cons_cons, List.append_assoc]
      rfl

/-- Neither a label nor an `else` is read at the start of a block. -/
theorem headIs_blockLine (reads : bodyReadsBack body = true)
    (named : ∀ name ∈ targetsOfBody body, Source.IsTargetName name) (delimited : Delimited after) :
    headIs (Token.isOperator ":") (codeTokens (blockLine body after)) = false ∧
      headIs (Token.isKeyword .else_) (codeTokens (blockLine body after)) = false := by
  cases body with
  | nil =>
      rw [codeTokens_blockLine_nil delimited]
      exact ⟨rfl, rfl⟩
  | cons first others =>
      rw [bodyReadsBack, Bool.and_eq_true] at reads
      rw [targetsOfBody, List.forall_mem_append] at named
      obtain ⟨last, -, line, -⟩ := codeTokens_blockLine_cons first others after
      obtain ⟨noColon, noElse, -⟩ :=
        Source.headIs_eq_false_of_opens (headIs_text reads.1 named.1 last)
      rw [line]
      exact ⟨noColon, noElse⟩

/-- A body is read back in a block and on its own. -/
structure BodyReads (body : List StatementTree) : Prop where
  block : ∀ after, Delimited after →
    Source.BlockReads (codeTokens (blockLine body after)) (bareAll body) (codeTokens after)
  alone : ∀ after, Delimited after →
    (bodyOpenEnded body = true → headIs (Token.isKeyword .else_) (codeTokens after) = false) →
    Source.StatementReads (codeTokens ((bodyText (texts body)).toList ++ after)) (bareAll body)
      (codeTokens after)

end Rules

mutual

/-- **The text of a statement is read back** before anything but an `else` that it would
take. -/
theorem text_reads (tree : StatementTree) (reads : tree.readsBack = true)
    (named : ∀ name ∈ tree.targets, Source.IsTargetName name) {after : List Char}
    (delimited : Delimited after)
    (noElse : tree.openEnded = true → headIs (Token.isKeyword .else_) (codeTokens after) = false) :
    Source.StatementReads (codeTokens (tree.text.toList ++ after)) [tree.bare]
      (codeTokens after) := by
  match tree with
  | missing => cases reads
  | assign target expression blocking line =>
      have name := named target List.mem_cons_self
      exact assign_reads name reads blocking line delimited
  | branch condition thenBody elseBody =>
      simp only [readsBack, Bool.and_eq_true] at reads
      obtain ⟨⟨⟨stands, thenReads⟩, elseReads⟩, closed⟩ := reads
      rw [targets, List.forall_mem_append] at named
      rw [openEnded] at noElse
      have thenPart := body_reads thenBody thenReads named.1
      have elsePart := body_reads elseBody elseReads named.2
      -- Without an `else` of its own a branch takes one that follows. With one, its first body must
      -- not take it.
      cases elseBody with
      | nil =>
          exact branch_reads stands (noElse rfl) (thenPart.alone _ delimited fun _ => noElse rfl)
      | cons tree elseBody =>
          apply branch_else_reads stands
          · intro last delimited
            apply thenPart.alone last delimited
            intro isOpen
            rw [isOpen] at closed
            cases closed
          · exact elsePart.alone _ delimited noElse
  | select subject arms otherwise =>
      simp only [readsBack, Bool.and_eq_true] at reads
      obtain ⟨⟨stands, armsRead⟩, otherwiseReads⟩ := reads
      rw [targets, List.forall_mem_append] at named
      have default := body_reads otherwise otherwiseReads named.2
      apply select_reads stands
      apply armsText_reads arms armsRead named.1 otherwise delimited
      cases otherwise with
      | nil => exact closing_reads_nil delimited
      | cons first others =>
          apply closing_reads_cons delimited
          intro last delimited noElse
          exact default.alone last delimited fun _ => noElse

/-- **A body is read back**, in a block and on its own. A body of one statement is written without
`begin` and `end`, every other one with them. -/
theorem body_reads (body : List StatementTree) (reads : bodyReadsBack body = true)
    (named : ∀ name ∈ targetsOfBody body, Source.IsTargetName name) : BodyReads body := by
  match body with
  | [] =>
      have block (after : List Char) (delimited : Delimited after) :
          Source.BlockReads (codeTokens (blockLine [] after)) [] (codeTokens after) := by
        rw [codeTokens_blockLine_nil delimited]
        exact Source.BlockReads.end_ _
      refine ⟨block, fun after delimited _ => ?_⟩
      exact block_reads (headIs_blockLine rfl named delimited).1 (block after delimited)
  | first :: others =>
      have reads' := reads
      have named' := named
      rw [bodyReadsBack, Bool.and_eq_true] at reads'
      rw [targetsOfBody, List.forall_mem_append] at named'
      have following := body_reads others reads'.2 named'.2
      have block (after : List Char) (delimited : Delimited after) :
          Source.BlockReads (codeTokens (blockLine (first :: others) after))
            (bareAll (first :: others)) (codeTokens after) := by
        obtain ⟨last, ends, line, same⟩ := codeTokens_blockLine_cons first others after
        have noElse := (headIs_blockLine reads'.2 named'.2 delimited).2
        have statement := text_reads first reads'.1 named'.1 ends fun _ => same ▸ noElse
        rw [same] at statement
        rw [line]
        exact Source.BlockReads.cons (headIs_text reads'.1 named'.1 last) statement
          (following.block after delimited)
      refine ⟨block, fun after delimited noElse => ?_⟩
      cases others with
      | nil => exact text_reads first reads'.1 named'.1 delimited noElse
      | cons second others =>
          exact block_reads (headIs_blockLine reads named delimited).1 (block after delimited)

/-- The alternatives of a case statement before its default body and its end. -/
theorem armsText_reads (arms : List (List String × List StatementTree))
    (reads : armsReadBack arms = true)
    (named : ∀ name ∈ targetsOfArms arms, Source.IsTargetName name)
    (otherwise : List StatementTree) {after : List Char} (delimited : Delimited after)
    {trees : List StatementTree}
    (closingReads : Source.ItemsRead (codeTokens ((closing otherwise).toList ++ after)) [] trees
      (codeTokens after)) :
    Source.ItemsRead
      (codeTokens ((armsText arms).toList ++ ((closing otherwise).toList ++ after)))
      (bareArms arms) trees (codeTokens after) := by
  match arms with
  | [] => exact closingReads
  | (labels, body) :: arms =>
      simp only [armsReadBack, Bool.and_eq_true] at reads
      obtain ⟨⟨⟨stand, bodyReads⟩, armsRead⟩, closed⟩ := reads
      rw [targetsOfArms, List.forall_mem_append] at named
      apply arm_reads stand
      · apply (body_reads body bodyReads named.1).alone _ (delimited_arms after arms otherwise)
        intro isOpen
        rw [isOpen, Bool.true_and, Bool.not_eq_true'] at closed
        exact headIs_arms armsRead closed otherwise delimited
      · exact armsText_reads arms armsRead named.2 otherwise delimited closingReads

end

/-- A body of statements on one line each is written on one line. -/
theorem not_mem_bodyText {lines : List String} (oneLine : ∀ line ∈ lines, '\n' ∉ line.toList) :
    '\n' ∉ (bodyText lines).toList := by
  unfold bodyText
  split
  · exact oneLine _ List.mem_cons_self
  · rw [String.toList_append, String.toList_append, List.mem_append, List.mem_append]
    rintro ((opening | inside) | closing)
    · exact absurd opening (by decide)
    · exact Source.not_mem_joined (by decide) oneLine inside
    · exact absurd closing (by decide)

mutual

/-- The text of a statement that reads back has no line feed. -/
theorem not_mem_text (tree : StatementTree) (reads : tree.readsBack = true)
    (named : ∀ name ∈ tree.targets, Source.IsTargetName name) : '\n' ∉ tree.text.toList := by
  match tree with
  | missing => cases reads
  | assign target expression blocking line =>
      have name : '\n' ∉ target.toList := by
        intro feed
        have lexeme := (named target List.mem_cons_self).lexeme
        exact absurd (lexeme.not_isBlank nofun nofun _ feed) (by decide)
      obtain ⟨-, -, -, oneLine⟩ := Source.exists_words_of_rightSideStands reads
      cases blocking <;> simp only [text, String.toList_append, List.mem_append, not_or] <;>
        exact ⟨⟨⟨name, by decide⟩, oneLine⟩, by decide⟩
  | branch condition thenBody elseBody =>
      simp only [readsBack, Bool.and_eq_true] at reads
      rw [targets, List.forall_mem_append] at named
      obtain ⟨-, -, -, oneLine⟩ := Source.exists_words_of_conditionStands reads.1.1.1
      have thenPart := not_mem_bodyText (not_mem_texts thenBody reads.1.1.2 named.1)
      have elsePart := not_mem_bodyText (not_mem_texts elseBody reads.1.2 named.2)
      simp only [text, String.toList_append, List.mem_append, not_or]
      refine ⟨⟨⟨⟨by decide, oneLine⟩, by decide⟩, thenPart⟩, ?_⟩
      split
      · exact List.not_mem_nil
      · rw [String.toList_append, List.mem_append, not_or]
        exact ⟨by decide, elsePart⟩
  | select subject arms otherwise =>
      simp only [readsBack, Bool.and_eq_true] at reads
      rw [targets, List.forall_mem_append] at named
      obtain ⟨-, -, -, oneLine⟩ := Source.exists_words_of_conditionStands reads.1.1
      have alternatives := not_mem_armsText arms reads.1.2 named.1
      have default := not_mem_bodyText (not_mem_texts otherwise reads.2 named.2)
      simp only [text, String.toList_append, List.mem_append, not_or]
      refine ⟨⟨⟨⟨⟨by decide, oneLine⟩, by decide⟩, alternatives⟩, ?_⟩, by decide⟩
      split
      · exact List.not_mem_nil
      · rw [String.toList_append, List.mem_append, not_or]
        exact ⟨by decide, default⟩

/-- A statement is written on one line. -/
theorem not_mem_texts (body : List StatementTree) (reads : bodyReadsBack body = true)
    (named : ∀ name ∈ targetsOfBody body, Source.IsTargetName name) :
    ∀ line ∈ texts body, '\n' ∉ line.toList := by
  match body with
  | [] => exact List.forall_mem_nil _
  | tree :: body =>
      rw [bodyReadsBack, Bool.and_eq_true] at reads
      rw [targetsOfBody, List.forall_mem_append] at named
      rw [texts, List.forall_mem_cons]
      exact ⟨not_mem_text tree reads.1 named.1, not_mem_texts body reads.2 named.2⟩

/-- The alternatives of a case statement are written on one line. -/
theorem not_mem_armsText (arms : List (List String × List StatementTree))
    (reads : armsReadBack arms = true)
    (named : ∀ name ∈ targetsOfArms arms, Source.IsTargetName name) :
    '\n' ∉ (armsText arms).toList := by
  match arms with
  | [] => exact List.not_mem_nil
  | (labels, body) :: arms =>
      simp only [armsReadBack, Bool.and_eq_true] at reads
      rw [targetsOfArms, List.forall_mem_append] at named
      obtain ⟨-, -, -, oneLine⟩ := Source.exists_words_of_labelsStand reads.1.1.1
      have inside := not_mem_bodyText (not_mem_texts body reads.1.1.2 named.1)
      have following := not_mem_armsText arms reads.1.2 named.2
      simp only [armsText, String.toList_append, List.mem_append, not_or]
      exact ⟨⟨⟨⟨by decide, oneLine⟩, by decide⟩, inside⟩, following⟩

end

end StatementTree

end MiniVerilog
