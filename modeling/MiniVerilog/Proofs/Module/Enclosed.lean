import MiniVerilog.Proofs.Source.EnclosedItem
import MiniVerilog.Proofs.Token.Continued

/-! # What comes after a module

A module whose `endmodule` nothing reads over is the same whatever text comes after the line
that it ends in (`MiniVerilog.Module.ofSource?_append`).
-/

namespace MiniVerilog

namespace Source

variable {tokens : List Token}

/-- What follows the tokens does not change the first header in them. -/
theorem findHeader_append {name : String} {rest : List Token}
    (found : findHeader tokens = some (name, rest)) (after : List Token) :
    findHeader (tokens ++ after) = some (name, rest ++ after) := by
  fun_induction findHeader tokens with
  | case1 opening header rest isHeader =>
      cases found
      rw [List.cons_append, List.cons_append, findHeader, if_pos isHeader]
  | case2 opening header rest noHeader ih =>
      rw [List.cons_append, List.cons_append, findHeader, if_neg noHeader]
      exact ih found
  | case3 => cases found

/-- The tokens have a whole module: a header with its parameters, if any, and what follows up
to an `endmodule` over which nothing is read. -/
def HasModule (tokens : List Token) : Prop :=
  ∃ name body, findHeader tokens = some (name, body) ∧ Enclosed body ∧
    (readHeaderParameters body).2 ≠ []

/-- **A whole module is read alike whatever comes after it.** -/
theorem readModule?_append (whole : HasModule tokens) (after : List Token) :
    readModule? (tokens ++ after) = readModule? tokens := by
  obtain ⟨name, body, found, enclosed, closed⟩ := whole
  have header := readHeaderParameters_confined enclosed closed
  rw [readModule?, readModule?, findHeader_append found, found, Option.map_some, Option.map_some]
  simp only [header.append, readItems_append header.rest]

end Source

namespace Module

/-- The tokens of a source text but for its comments. -/
def codeOf (source : String) : List Token :=
  (Token.scan source).filter fun token => token.kind != .comment

/-- Tokens with a whole module end in `endmodule`. -/
theorem getLast?_of_hasModule {tokens : List Token} (whole : Source.HasModule tokens) :
    ∃ last ∈ tokens.getLast?, last.kind = .keyword .endmodule := by
  obtain ⟨name, body, found, enclosed, -⟩ := whole
  obtain ⟨last, isLast, isEnd⟩ := enclosed.ended
  obtain ⟨before, rfl⟩ := Source.findHeader_suffix found
  refine ⟨last, ?_, isEnd.kind_eq⟩
  rw [List.getLast?_append_of_ne_nil before enclosed.ne_nil]
  exact isLast

/-- A whole module at the front of a text is at its front when the text goes on. -/
theorem prefix_codeOf_append {source : String} {tokens : List Token}
    (front : tokens <+: codeOf source) (whole : Source.HasModule tokens) (later : String) :
    tokens <+: codeOf (source ++ "\n" ++ later) := by
  obtain ⟨common, own, others, alone, further, quoted⟩ := Token.scan_append source later
  rw [codeOf, alone, List.filter_append] at front
  rw [codeOf, further, List.filter_append]
  refine List.IsPrefix.trans ?_ (List.prefix_append _ _)
  rcases List.prefix_or_prefix_of_prefix front (List.prefix_append _ _) with inside | beyond
  · exact inside
  · -- The last token would be one of those at the end of the text, which are quoted.
    obtain ⟨part, rfl⟩ := beyond
    rw [List.prefix_append_right_inj] at front
    obtain ⟨last, isLast, kind⟩ := getLast?_of_hasModule whole
    by_cases none : part = []
    · rw [none, List.append_nil]
    · rw [List.getLast?_append_of_ne_nil _ none] at isLast
      have member := (List.mem_filter.mp (front.subset (List.mem_of_getLast? isLast))).1
      rcases quoted last member with comment | string
      · rw [kind] at comment
        cases comment
      · rw [kind] at string
        cases string

/-- **Nothing after the line in which a whole module ends influences it.** -/
theorem ofSource?_append {source : String} {tokens : List Token} (front : tokens <+: codeOf source)
    (whole : Source.HasModule tokens) (later : String) :
    ofSource? (source ++ "\n" ++ later) = ofSource? source := by
  obtain ⟨after, further⟩ := prefix_codeOf_append front whole later
  obtain ⟨rest, alone⟩ := front
  change ofTokens? (codeOf (source ++ "\n" ++ later)) = ofTokens? (codeOf source)
  rw [← further, ← alone, ofTokens?, ofTokens?, Source.readModule?_append whole,
    Source.readModule?_append whole]

/-- A module with a parameter, a function and a delay keeps its items when the line after it
would declare others. -/
theorem ofSource?_append_delayed :
    ∃ source module,
      source = "module m #(parameter W=2); function f; endfunction always q <= # 1 W; endmodule" ∧
      ofSource? source = some module ∧
      ofSource? (source ++ "\n" ++ "endfunction wire w; endmodule") = some module := by
  let source := "module m #(parameter W=2); function f; endfunction always q <= # 1 W; endmodule"
  let module : Module :=
    { name := "m"
      parameters := [⟨"W", 2, false, 1⟩]
      alwaysBlocks := [⟨[], [0], 1⟩]
      statements := ⟨#[.assign "q" "W" false 1]⟩ }
  have parsed : ofSource? source = some module := by decide +kernel
  have whole : Source.HasModule (codeOf source) := by
    refine ⟨"m", ((Source.findHeader (codeOf source)).getD ("", [])).2, ?_, ?_, ?_⟩ <;>
      decide +kernel
  refine ⟨source, module, rfl, parsed, ?_⟩
  rw [ofSource?_append List.prefix_rfl whole, parsed]

/-- The text has no comment, a module header and an `endmodule` after it, and yet its module
changes with the lines after it. -/
def ReadsPastEnd (source later : String) : Prop :=
  (∀ token ∈ Token.scan source, token.kind ≠ .comment) ∧
    (∃ found ∈ Source.findHeader (codeOf source), found.2.any (Token.isKeyword .endmodule)) ∧
    ofSource? (source ++ "\n" ++ later) ≠ ofSource? source

instance (source later : String) : Decidable (ReadsPastEnd source later) :=
  inferInstanceAs (Decidable (_ ∧ _ ∧ _))

/-- Text after the `endmodule` is read when a function, a delay or the parameters of the header
are left open before it. -/
theorem ofSource?_append_open :
    ReadsPastEnd "module m; function f; endmodule" "endfunction wire w; endmodule" ∧
      ReadsPastEnd "module m; always q <= # endmodule" "1; wire w; endmodule" ∧
      ReadsPastEnd "module m #( endmodule" "); wire w; endmodule" := by
  decide +kernel

end Module

end MiniVerilog
