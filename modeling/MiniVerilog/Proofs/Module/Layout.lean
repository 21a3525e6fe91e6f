import MiniVerilog.Proofs.Module.Enclosed
import MiniVerilog.Proofs.Module.Place

/-! # Layout does not matter

Two source texts whose tokens have the same kinds and texts, wherever these stand and whatever
blanks and comments are between them, give the same module but for its lines
(`MiniVerilog.Module.ofSource?_eq_of_contents`).
-/

namespace MiniVerilog

/-- What a token is apart from its place. -/
def Token.content (token : Token) : TokenKind × String :=
  (token.kind, token.text)

/-- Tokens of equal kinds and texts are equal but for their places. -/
theorem Token.map_bare_eq {first second : List Token}
    (same : first.map content = second.map content) : first.map bare = second.map bare := by
  have fromContent : bare = (fun content : TokenKind × String => ⟨content.1, content.2, 0, 0⟩) ∘
      content := rfl
  rw [fromContent, ← List.map_map, ← List.map_map, same]

namespace Module

/-- What the tokens of a source text are apart from their places, comments left out. -/
def contentsOf (source : String) : List (TokenKind × String) :=
  (codeOf source).map Token.content

/-- **A module does not depend on the layout of its source.** Either both texts have no module, or
their modules differ in nothing but lines. -/
theorem ofSource?_eq_of_contents {first second : String}
    (same : contentsOf first = contentsOf second) :
    (ofSource? first).map bare = (ofSource? second).map bare := by
  have tokens := Token.map_bare_eq same
  calc (ofSource? first).map bare = ofTokens? ((codeOf first).map Token.bare) :=
        (ofTokens?_bare (codeOf first)).symm
    _ = ofTokens? ((codeOf second).map Token.bare) := by rw [tokens]
    _ = (ofSource? second).map bare := ofTokens?_bare (codeOf second)

/-- A module on one line and the same one on several lines with comments. -/
theorem ofSource?_eq_of_contents_lines :
    let short := "module m(input a); reg q=1; always @(a) if(a) q<=~a; endmodule"
    let long :=
      "module m // m\n(input a);\n\treg q = 1;\nalways @(a) /*\n*/ if (a) q <= ~ a;\nendmodule"
    contentsOf short = contentsOf long ∧ ofSource? short ≠ ofSource? long ∧
      (ofSource? short).isSome = true ∧
      (ofSource? short).map bare = (ofSource? long).map bare := by
  intro short long
  have same : contentsOf short = contentsOf long := by decide +kernel
  exact ⟨same, by decide +kernel, by decide +kernel, ofSource?_eq_of_contents same⟩

end Module

end MiniVerilog
