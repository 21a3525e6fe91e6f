import MiniVerilog.Proofs.Module.Bodies
import MiniVerilog.Proofs.Module.Place
import MiniVerilog.Proofs.Source.Rules

/-! # A module around one always block

When the statements of an always block are read back between `begin` and `end`, they
are read back from a source text with a module around them
(`MiniVerilog.Module.exists_of_frame`).
-/

namespace MiniVerilog

open Source (word mark)

/-- The tokens of a module with one always block that runs on every change. -/
def Source.frame (name : String) (statements : List Token) : List Token :=
  word .module_ :: ⟨.identifier, name, 0, 0⟩ :: mark "(" :: mark ")" :: mark ";" ::
    word .always :: mark "@" :: mark "(" :: mark "*" :: mark ")" :: word .begin_ :: statements

namespace Module

theorem readItems_mark {text : String} (rest : List Token) :
    Source.readItems (mark text :: rest) = Source.readItems rest := by
  rw [Source.readItems]
  exact List.nil_append _

/-- **A framed body is read as a module with one always block**, whose trees are those of the
body. -/
theorem readModule?_frame (name : String) {statements : List Token} {trees : List StatementTree}
    (reads : Source.StatementReads (word .begin_ :: statements) trees [word .endmodule]) :
    ∃ procedures, Source.readModule? (Source.frame name statements) =
        some (name, [.always ["*"] procedures 0]) ∧ Source.treesOfBody procedures = trees := by
  obtain ⟨read, left⟩ := reads
  refine ⟨(Source.takeStatement (word .begin_ :: statements)).1, ?_, read⟩
  have header : Source.readModule? (Source.frame name statements) =
      some (name, Source.readItems (mark "(" :: mark ")" :: mark ";" :: word .always :: mark "@" ::
        mark "(" :: mark "*" :: mark ")" :: word .begin_ :: statements)) := rfl
  have item : Source.takeItem (word .always) (mark "@" :: mark "(" :: mark "*" :: mark ")" ::
      word .begin_ :: statements) =
        ([.always ["*"] (Source.takeStatement (word .begin_ :: statements)).1 0],
          (Source.takeStatement (word .begin_ :: statements)).2) := rfl
  have noEnd : Source.endsModule (word .always) = false := rfl
  have last : Source.readItems [word .endmodule] = [] := by
    rw [Source.readItems]
    rfl
  rw [header, readItems_mark, readItems_mark, readItems_mark, Source.readItems, noEnd,
    if_neg Bool.false_ne_true, item, left, last]
  rfl

/-- **A body that reads back does so inside a module.** -/
theorem exists_of_frame {source name : String} {statements : List Token}
    {trees : List StatementTree}
    (scanned : ((Token.scan source).filter fun token => token.kind != .comment).map Token.bare =
      Source.frame name statements)
    (reads : Source.StatementReads (word .begin_ :: statements) trees [word .endmodule]) :
    ∃ module block, ofSource? source = some module ∧ module.alwaysBlocks = [block] ∧
      (module.trees block.body).map StatementTree.bare = trees := by
  obtain ⟨procedures, read, stand⟩ := readModule?_frame name reads
  have bareModule : (ofSource? source).map bare =
      some (ofItems name [.always ["*"] procedures 0]) := by
    rw [ofSource?, ← ofTokens?_bare, scanned, ofTokens?, read]
    rfl
  obtain ⟨module, parsed, same⟩ := Option.map_eq_some_iff.mp bareModule
  have blocks := trees_ofItems name [.always ["*"] procedures 0]
  rw [← same] at blocks
  -- Bare blocks are the blocks but for their lines, so there are as many of them.
  have one : (module.alwaysBlocks.map AlwaysBlock.bare).length = 1 := by
    have lengths := congrArg List.length blocks
    rw [List.length_map] at lengths
    exact lengths
  rw [List.length_map] at one
  obtain ⟨block, only⟩ := List.length_eq_one_iff.mp one
  refine ⟨module, block, parsed, only, ?_⟩
  have tree : module.bare.trees block.body = trees := by
    have bareBlocks : module.bare.alwaysBlocks = [block.bare] :=
      congrArg (List.map AlwaysBlock.bare) only
    rw [bareBlocks] at blocks
    exact (List.cons.inj blocks).1.trans stand
  rw [← tree]
  exact (StatementTree.ofBody_bare module.statements block.body).symm

end Module

end MiniVerilog
