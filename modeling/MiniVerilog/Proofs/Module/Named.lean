import MiniVerilog.Proofs.Module.Enclosed
import MiniVerilog.Proofs.Module.Ports

/-! # Where a module is found

A module header is the reserved word `module` with a name right after it. The first one among the
tokens of a source text makes its module and gives it its name, whatever stands before and after
it, and without one there is no module (`MiniVerilog.Module.ofSource?_named`).
-/

namespace MiniVerilog

namespace Source

/-- The reserved word `module` stands at a place among the tokens, and the name right after it. -/
def HeaderAt (tokens : List Token) (index : Nat) (name : String) : Prop :=
  ∃ opening identifier, tokens[index]? = some opening ∧ tokens[index + 1]? = some identifier ∧
    opening.kind = .keyword .module_ ∧ identifier.kind = .identifier ∧ identifier.text = name

/-- The first module header among the tokens has this name. -/
def FirstHeader (tokens : List Token) (name : String) : Prop :=
  ∃ index, HeaderAt tokens index name ∧
    ∀ earlier < index, ∀ other, ¬ HeaderAt tokens earlier other

/-- A place has one header at most. -/
theorem HeaderAt.name_eq {tokens : List Token} {index : Nat} {first second : String}
    (header : HeaderAt tokens index first) (again : HeaderAt tokens index second) :
    first = second := by
  obtain ⟨-, identifier, -, found, -, -, rfl⟩ := header
  obtain ⟨-, other, -, foundAgain, -, -, rfl⟩ := again
  rw [Option.some.inj (found.symm.trans foundAgain)]

/-- There is one first header at most. -/
theorem FirstHeader.name_eq {tokens : List Token} {first second : String}
    (header : FirstHeader tokens first) (again : FirstHeader tokens second) : first = second := by
  obtain ⟨index, here, before⟩ := header
  obtain ⟨other, there, beforeOther⟩ := again
  rcases Nat.lt_trichotomy index other with less | rfl | greater
  · exact (beforeOther index less first here).elim
  · exact here.name_eq there
  · exact (before other greater second there).elim

/-- The first two tokens are a header if they are `module` and a name. -/
theorem headerAt_zero {opening identifier : Token} {rest : List Token} {name : String} :
    HeaderAt (opening :: identifier :: rest) 0 name ↔
      (opening.isKeyword .module_ && identifier.isIdentifier) = true ∧ identifier.text = name := by
  rw [Bool.and_eq_true, Token.isKeyword, Token.isIdentifier, beq_iff_eq, beq_iff_eq, and_assoc]
  constructor
  · rintro ⟨_, _, same, sameToo, header⟩
    cases same
    cases sameToo
    exact header
  · intro header
    exact ⟨opening, identifier, rfl, rfl, header⟩

theorem headerAt_succ {first : Token} {tokens : List Token} {index : Nat} {name : String} :
    HeaderAt (first :: tokens) (index + 1) name ↔ HeaderAt tokens index name :=
  Iff.rfl

theorem not_headerAt_zero {opening identifier : Token} {rest : List Token}
    (other : ¬ (opening.isKeyword .module_ && identifier.isIdentifier) = true) (name : String) :
    ¬ HeaderAt (opening :: identifier :: rest) 0 name :=
  fun header => other (headerAt_zero.mp header).1

/-- A token that starts no header can be left out at the front. -/
theorem firstHeader_cons {opening identifier : Token} {rest : List Token} {name : String}
    (other : ¬ (opening.isKeyword .module_ && identifier.isIdentifier) = true)
    (later : FirstHeader (identifier :: rest) name) :
    FirstHeader (opening :: identifier :: rest) name := by
  obtain ⟨index, header, before⟩ := later
  refine ⟨index + 1, headerAt_succ.mpr header, fun earlier less name again => ?_⟩
  cases earlier with
  | zero => exact not_headerAt_zero other name again
  | succ earlier =>
      exact before earlier (Nat.lt_of_succ_lt_succ less) name (headerAt_succ.mp again)

/-- **What is found is the first header**, if there is one. -/
theorem firstHeader_of_findHeader {tokens rest : List Token} {name : String}
    (found : findHeader tokens = some (name, rest)) : FirstHeader tokens name := by
  fun_induction findHeader tokens with
  | case1 opening identifier rest isHeader =>
      cases found
      exact ⟨0, headerAt_zero.mpr ⟨isHeader, rfl⟩,
        fun earlier less => absurd less earlier.not_lt_zero⟩
  | case2 opening identifier rest other ih => exact firstHeader_cons other (ih found)
  | case3 => cases found

/-- **If no header is found there is none**, by induction on the tokens. -/
theorem not_headerAt_of_findHeader {tokens : List Token} (none : findHeader tokens = none)
    (index : Nat) (name : String) : ¬ HeaderAt tokens index name := by
  fun_induction findHeader tokens generalizing index with
  | case1 => cases none
  | case2 opening identifier rest other ih =>
      cases index with
      | zero => exact not_headerAt_zero other name
      | succ index => exact fun header => ih none index (headerAt_succ.mp header)
  | case3 tokens short =>
      rintro ⟨opening, identifier, here, there, -⟩
      cases tokens with
      | nil => cases here
      | cons first tokens =>
          cases tokens with
          | nil => cases there
          | cons second rest => exact short first second rest rfl

end Source

namespace Module

open Source (HeaderAt FirstHeader)

/-- A source has no module exactly if no header is found in it. -/
theorem ofSource?_eq_none_iff {source : String} :
    ofSource? source = none ↔ Source.findHeader (codeOf source) = none := by
  rw [ofSource?, ofTokens?, Option.map_eq_none_iff, Source.readModule?, Option.map_eq_none_iff]
  rfl

/-- The module has the name that was found. -/
theorem exists_of_findHeader {source name : String} {rest : List Token}
    (found : Source.findHeader (codeOf source) = some (name, rest)) :
    ∃ module, ofSource? source = some module ∧ module.name = name := by
  have header : ∃ items, Source.readModule? (codeOf source) = some (name, items) :=
    ⟨_, congrArg (Option.map _) found⟩
  obtain ⟨items, read⟩ := header
  refine ⟨ofItems name items, ?_, name_ofItems name items⟩
  change ofTokens? (codeOf source) = _
  rw [ofTokens?, read, Option.map_some]

/-- **A source text has a module exactly if it has a module header**, and the module has the name
in its first header. -/
theorem ofSource?_named (source : String) :
    (ofSource? source = none ↔ ∀ index name, ¬ HeaderAt (codeOf source) index name) ∧
      ∀ name, (∃ module, ofSource? source = some module ∧ module.name = name) ↔
        FirstHeader (codeOf source) name := by
  rw [ofSource?_eq_none_iff]
  cases found : Source.findHeader (codeOf source) with
  | none =>
      have absent := Source.not_headerAt_of_findHeader found
      refine ⟨iff_of_true rfl absent, fun name => iff_of_false ?_ ?_⟩
      · rintro ⟨module, parsed, -⟩
        rw [ofSource?_eq_none_iff.mpr found] at parsed
        cases parsed
      · rintro ⟨index, header, -⟩
        exact absent index name header
  | some header =>
      obtain ⟨name, rest⟩ := header
      have first := Source.firstHeader_of_findHeader found
      obtain ⟨module, parsed, rfl⟩ := exists_of_findHeader found
      refine ⟨iff_of_false (fun same => nomatch same) fun absent => ?_, fun name => ?_⟩
      · obtain ⟨index, header, -⟩ := first
        exact absent index _ header
      · constructor
        · rintro ⟨other, again, rfl⟩
          obtain rfl := Option.some.inj (parsed.symm.trans again)
          exact first
        · intro other
          exact ⟨module, parsed, first.name_eq other⟩

/-- Three headers that fail, over a comment and the end of a line, and one more after the first
one that does not. -/
theorem ofSource?_named_retried :
    let source := "wire v; module; module 1\nmodule module /* x */ m // n\nmodule n; endmodule"
    FirstHeader (codeOf source) "m" ∧
      (∃ module, ofSource? source = some module ∧ module.name = "m") ∧
      ∀ index name, ¬ HeaderAt (codeOf "module; x module 1 y") index name := by
  intro source
  have named : ∃ module, ofSource? source = some module ∧ module.name = "m" := by
    have parsed : (ofSource? source).map Module.name = some "m" := by decide +kernel
    exact Option.map_eq_some_iff.mp parsed
  have absent : ofSource? "module; x module 1 y" = none := by decide +kernel
  exact ⟨((ofSource?_named source).2 "m").mp named, named, (ofSource?_named _).1.mp absent⟩

end Module

end MiniVerilog
