import Mathlib.Data.List.Infix
import MiniVerilog.Source.Item

/-! # Readers leave the end of what they were given

Every reader takes tokens from the front, so its rest is a suffix of the list and each
name it gives is the text of one of the tokens.
-/

namespace MiniVerilog.Source

open List (IsSuffix suffix_refl suffix_cons nil_suffix drop_suffix)

/-- What is left after a token that may be skipped is a suffix. The same holds for every reader
below, and the names in what it gives are texts of the tokens it read. -/
theorem skipIf_suffix (property : Token → Bool) (tokens : List Token) :
    skipIf property tokens <:+ tokens := by
  unfold skipIf
  split
  · exact suffix_refl []
  · split
    · exact suffix_cons _ _
    · exact suffix_refl _

/-- A skipped statement leaves a suffix. -/
theorem skipStatement_suffix (depth : Int) (tokens : List Token) :
    skipStatement depth tokens <:+ tokens := by
  fun_induction skipStatement depth tokens with
  | case1 => exact suffix_refl []
  | case2 => exact suffix_refl _
  | case3 depth token rest => exact suffix_cons token rest
  | case4 depth token rest _ _ ih => exact ih.trans (suffix_cons token rest)

theorem skipPast_suffix (word : Keyword) (tokens : List Token) :
    skipPast word tokens <:+ tokens := by
  fun_induction skipPast word tokens with
  | case1 => exact suffix_refl []
  | case2 token rest => exact suffix_cons token rest
  | case3 token rest _ ih => exact ih.trans (suffix_cons token rest)

/-- What ends an expression is still to be read, with everything after it. -/
theorem takeUntil_suffix (stop : Token → Bool) (depth : Int) (tokens : List Token) :
    (takeUntil stop depth tokens).2 <:+ tokens := by
  fun_induction takeUntil stop depth tokens with
  | case1 => exact suffix_refl []
  | case2 => exact suffix_refl _
  | case3 depth token rest _ words after read ih =>
      rw [read] at ih
      exact ih.trans (suffix_cons token rest)

/-- Each token before the end of an expression gives one word. -/
theorem length_takeUntil (stop : Token → Bool) (depth : Int) (tokens : List Token) :
    (takeUntil stop depth tokens).1.length + (takeUntil stop depth tokens).2.length =
      tokens.length := by
  fun_induction takeUntil stop depth tokens with
  | case1 => rfl
  | case2 => exact Nat.zero_add _
  | case3 depth token rest _ words after read ih =>
      rw [read] at ih
      simp only [List.length_cons] at ih ⊢
      omega

/-- The words of an expression are texts of tokens. -/
theorem takeUntil_subset (stop : Token → Bool) (depth : Int) (tokens : List Token) :
    (takeUntil stop depth tokens).1 ⊆ tokens.map Token.text := by
  fun_induction takeUntil stop depth tokens with
  | case1 => exact List.nil_subset _
  | case2 => exact List.nil_subset _
  | case3 depth token rest _ words after read ih =>
      rw [read] at ih
      exact List.cons_subset_cons token.text ih

/-- A text in parentheses leaves a suffix. -/
theorem takeParenthesised_suffix (tokens : List Token) :
    (takeParenthesised tokens).2 <:+ tokens := by
  unfold takeParenthesised
  split
  · exact (skipIf_suffix _ _).trans ((takeUntil_suffix _ _ _).trans (drop_suffix 1 tokens))
  · exact suffix_refl tokens

/-- A range leaves a suffix. -/
theorem takeRange_suffix (tokens : List Token) : (takeRange tokens).2 <:+ tokens := by
  simp only [takeRange]
  split
  · exact (skipIf_suffix _ _).trans ((takeUntil_suffix _ _ _).trans
      ((drop_suffix 1 _).trans (takeUntil_suffix _ _ _)))
  · exact (skipIf_suffix _ _).trans (takeUntil_suffix _ _ _)

theorem takeRange?_suffix (tokens : List Token) : (takeRange? tokens).2 <:+ tokens := by
  unfold takeRange?
  split
  · exact (takeRange_suffix _).trans (drop_suffix 1 tokens)
  · exact suffix_refl tokens

/-- The ranges at the front leave a suffix. -/
theorem skipRanges_suffix (tokens : List Token) : skipRanges tokens <:+ tokens := by
  fun_induction skipRanges tokens with
  | case1 => exact suffix_refl []
  | case2 token rest _ ih =>
      exact ih.trans ((takeRange_suffix rest).trans (suffix_cons token rest))
  | case3 => exact suffix_refl _

/-- The label of a block leaves a suffix. -/
theorem skipBlockLabel_suffix (tokens : List Token) : skipBlockLabel tokens <:+ tokens := by
  unfold skipBlockLabel
  split
  · split
    · exact (suffix_cons _ _).trans (suffix_cons _ _)
    · exact suffix_refl _
  · exact suffix_refl tokens

/-- The right side of an assignment leaves a suffix. -/
theorem takeRightSide_suffix (tokens : List Token) : (takeRightSide tokens).2 <:+ tokens := by
  simp only [takeRightSide]
  refine (skipIf_suffix _ _).trans ((takeUntil_suffix _ _ _).trans ?_)
  split
  · exact drop_suffix 2 tokens
  · exact suffix_refl tokens

/-- An assignment leaves a suffix, also where it turns out to be none. -/
theorem takeAssignment_suffix (target : Token) (tokens : List Token) :
    (takeAssignment target tokens).2 <:+ tokens := by
  have right := (takeRightSide_suffix ((skipRanges tokens).drop 1)).trans
    ((drop_suffix 1 _).trans (skipRanges_suffix tokens))
  have skipped := (skipStatement_suffix 0 (skipRanges tokens)).trans (skipRanges_suffix tokens)
  simp only [takeAssignment]
  split
  · exact right
  · split
    · exact right
    · exact skipped

/-- The texts of the tokens with a property. -/
def textsOf (property : Token → Bool) (tokens : List Token) : List String :=
  (tokens.filter property).map Token.text

/-- A reader leaves a suffix, and the names it gives are texts of tokens with a property. -/
structure ReadsNames (property : Token → Bool) (tokens : List Token) (names : List String)
    (rest : List Token) : Prop where
  suffix : rest <:+ tokens
  names : names ⊆ textsOf property tokens

section ReadsNames

variable {property : Token → Bool} {tokens rest last : List Token} {names others : List String}

theorem textsOf_mono (suffix : rest <:+ tokens) : textsOf property rest ⊆ textsOf property tokens :=
  List.map_subset _ (List.filter_subset _ suffix.subset)

theorem ReadsNames.none (suffix : rest <:+ tokens) : ReadsNames property tokens [] rest :=
  ⟨suffix, List.nil_subset _⟩

theorem ReadsNames.mono (reads : ReadsNames property rest names last) (suffix : rest <:+ tokens) :
    ReadsNames property tokens names last :=
  ⟨reads.suffix.trans suffix, List.Subset.trans reads.names (textsOf_mono suffix)⟩

theorem ReadsNames.shorten (reads : ReadsNames property tokens names rest)
    (suffix : last <:+ rest) : ReadsNames property tokens names last :=
  ⟨suffix.trans reads.suffix, reads.names⟩

theorem ReadsNames.subset (reads : ReadsNames property tokens names rest) (fewer : others ⊆ names) :
    ReadsNames property tokens others rest :=
  ⟨reads.suffix, List.Subset.trans fewer reads.names⟩

/-- Names that are read one list after another are read together. -/
theorem ReadsNames.append (first : ReadsNames property tokens names rest)
    (second : ReadsNames property rest others last) :
    ReadsNames property tokens (names ++ others) last := by
  refine ⟨second.suffix.trans first.suffix, List.append_subset.mpr ⟨first.names, ?_⟩⟩
  exact (second.mono first.suffix).names

/-- A name before the tokens is read with the names in them. -/
theorem ReadsNames.cons {token : Token} (isName : property token = true)
    (reads : ReadsNames property tokens names rest) :
    ReadsNames property (token :: tokens) (token.text :: names) rest := by
  refine ⟨reads.suffix.trans (suffix_cons token tokens), List.cons_subset.mpr ⟨?_, ?_⟩⟩
  · exact List.mem_map.mpr ⟨token, List.mem_filter.mpr ⟨List.mem_cons_self, isName⟩, rfl⟩
  · exact (reads.mono (suffix_cons token tokens)).names

end ReadsNames

/-- The names of a port declaration are names among the tokens. -/
theorem takePortNames_names (tokens : List Token) :
    ReadsNames Token.isIdentifier tokens ((takePortNames tokens).1.map Declarator.name)
      (takePortNames tokens).2 := by
  fun_induction takePortNames tokens with
  | case1 => exact .none (suffix_refl [])
  | case2 token isName comma next after _ names rest read ih =>
      rw [read] at ih
      exact .cons isName (ih.mono (suffix_cons comma _))
  | case3 token isName => exact .cons isName (.none (suffix_refl _))
  | case4 token rest isName => exact .cons isName (.none (suffix_refl _))
  | case5 => exact .none (suffix_refl _)

/-- An initial value leaves a suffix. -/
theorem takeInitial_suffix (stop : Token → Bool) (tokens : List Token) :
    (takeInitial stop tokens).2 <:+ tokens := by
  unfold takeInitial
  split
  · exact (takeUntil_suffix _ _ _).trans (drop_suffix 1 tokens)
  · exact suffix_refl tokens

/-- The names of a signal declaration are names among the tokens. -/
theorem takeSignalNames_names (tokens : List Token) :
    ReadsNames Token.isIdentifier tokens ((takeSignalNames tokens).1.map Declarator.name)
      (takeSignalNames tokens).2 := by
  have initial (rest : List Token) : (takeInitial endsInitial (skipRanges rest)).2 <:+ rest :=
    (takeInitial_suffix _ _).trans (skipRanges_suffix rest)
  fun_induction takeSignalNames tokens with
  | case1 => exact .none (suffix_refl [])
  | case2 token rest isName value declarator _ following ih =>
      exact .cons isName (ih.mono ((drop_suffix 1 _).trans (initial rest)))
  | case3 token rest isName => exact .cons isName (.none (initial rest))
  | case4 => exact .none (suffix_refl _)

/-- The names of a list of parameters are names among the tokens. -/
theorem takeParameterNames_names (tokens : List Token) :
    ReadsNames Token.isIdentifier tokens ((takeParameterNames tokens).1.map Declarator.name)
      (takeParameterNames tokens).2 := by
  have value (rest : List Token) : (takeUntil endsParameter 0 (rest.drop 1)).2 <:+ rest :=
    (takeUntil_suffix _ _ _).trans (drop_suffix 1 rest)
  fun_induction takeParameterNames tokens with
  | case1 => exact .none (suffix_refl [])
  | case2 token rest named _ _ _ following ih =>
      have isName := (Bool.and_eq_true_iff.mp named).1
      exact .cons isName (ih.mono ((drop_suffix 1 _).trans (value rest)))
  | case3 token rest named =>
      exact .cons (Bool.and_eq_true_iff.mp named).1 (.none (value rest))
  | case4 token rest => exact .none (skipIf_suffix Token.isIdentifier (token :: rest))

theorem takeParameters_names (tokens : List Token) :
    ReadsNames Token.isIdentifier tokens ((takeParameters tokens).1.map Declarator.name)
      (takeParameters tokens).2 :=
  (takeParameterNames_names _).mono ((takeRange?_suffix _).trans
    ((skipIf_suffix _ _).trans (skipIf_suffix _ _)))

/-- The connections of an instance leave a suffix. -/
theorem takeConnections_suffix (tokens : List Token) : (takeConnections tokens).2 <:+ tokens := by
  fun_induction takeConnections tokens with
  | case1 => exact suffix_refl []
  | case2 => exact suffix_refl _
  | case3 token rest _ _ ih => exact ih.trans (suffix_cons token rest)
  | case4 token rest _ _ _ _ _ following ih =>
      exact ih.trans ((takeParenthesised_suffix _).trans
        ((skipIf_suffix _ _).trans (suffix_cons token rest)))
  | case5 token rest _ _ _ net _ following ih => exact ih.trans (takeUntil_suffix _ _ _)
  | case6 => exact suffix_refl _

/-- The connections of an instance with their parentheses leave a suffix. -/
theorem takeConnectionList_suffix (tokens : List Token) :
    (takeConnectionList tokens).2 <:+ tokens := by
  unfold takeConnectionList
  split
  · exact (skipIf_suffix _ _).trans ((takeConnections_suffix _).trans (drop_suffix 1 tokens))
  · exact suffix_refl tokens

/-- The parameter values of an instance leave a suffix. -/
theorem skipParameterValues_suffix (tokens : List Token) :
    skipParameterValues tokens <:+ tokens := by
  unfold skipParameterValues
  split
  · exact (takeParenthesised_suffix _).trans (drop_suffix 1 tokens)
  · exact suffix_refl tokens

/-- An instance leaves a suffix. -/
theorem takeInstanceName_suffix (moduleName : Token) (tokens : List Token) :
    (takeInstanceName moduleName tokens).2 <:+ tokens := by
  unfold takeInstanceName
  split
  · exact suffix_refl []
  · rename_i name rest
    split
    · exact (skipIf_suffix _ _).trans
        ((takeConnectionList_suffix rest).trans (suffix_cons name rest))
    · exact skipStatement_suffix 0 (name :: rest)

/-- The signals of an event control leave a suffix. -/
theorem takeEvents_suffix (tokens : List Token) : (takeEvents tokens).2 <:+ tokens := by
  unfold takeEvents
  split
  · exact suffix_refl []
  · rename_i first rest
    split
    · exact suffix_cons first rest
    · split
      · exact (skipIf_suffix _ _).trans ((takeUntil_suffix _ _ _).trans (suffix_cons first rest))
      · split
        · exact suffix_cons first rest
        · exact suffix_refl (first :: rest)

/-- An event control leaves a suffix, if there is one. -/
theorem takeEventControl_suffix (tokens : List Token) : (takeEventControl tokens).2 <:+ tokens := by
  unfold takeEventControl
  split
  · exact (takeEvents_suffix _).trans (drop_suffix 1 tokens)
  · exact suffix_refl tokens

/-- What follows the first module header is a suffix. -/
theorem findHeader_suffix {tokens rest : List Token} {name : String}
    (found : findHeader tokens = some (name, rest)) : rest <:+ tokens := by
  fun_induction findHeader tokens with
  | case1 opening name rest =>
      cases found
      exact (suffix_cons _ _).trans (suffix_cons _ _)
  | case2 opening name others _ ih => exact (ih found).trans (suffix_cons _ _)
  | case3 => cases found

end MiniVerilog.Source
