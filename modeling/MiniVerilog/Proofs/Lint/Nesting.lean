import Mathlib.Data.List.Basic
import MiniVerilog.Proofs.Lint.Findings

/-! # Modules that open and end

The linter counts the open modules from word to word. Every `endmodule` without an open module and
every `module` inside another one is reported once, at its place, and a module that is still open
at the end of the text is reported once (`MiniVerilog.Lint.Report.ofSource_tellsModules`). So the
words that open modules and the ends without a module are as many as the words that end modules and
the modules that stay open.
-/

namespace MiniVerilog.Lint

section Signs

variable {α : Type} (opens : α → Bool)

/-- The number of constructs that are open after a sign. A sign that closes while none is open
closes none. -/
def depthAfter (depth : Nat) (sign : α) : Nat :=
  if opens sign then depth + 1 else depth - 1

/-- The number of constructs that stay open after some signs. -/
def depthAtEnd (depth : Nat) (signs : List α) : Nat :=
  signs.foldl (depthAfter opens) depth

/-- The number of signs that close while nothing is open. -/
def strayCloses (depth : Nat) : List α → Nat
  | [] => 0
  | sign :: signs =>
    (if !opens sign && depth == 0 then 1 else 0) +
      strayCloses (depthAfter opens depth sign) signs

/-- One sign keeps the account: what it opens is open after it, and what it closes was open before
it, unless it is a stray. -/
theorem depth_add_strayClose (depth : Nat) (sign : α) :
    depth + (if opens sign then 1 else 0) + (if !opens sign && depth == 0 then 1 else 0) =
      (if !opens sign then 1 else 0) + depthAfter opens depth sign := by
  unfold depthAfter
  cases opens sign
  · cases depth <;> simp [Nat.add_comm]
  · simp

/-- **What opens is closed or stays open**, but for the signs that close nothing. -/
theorem countP_add_strayCloses (depth : Nat) (signs : List α) :
    depth + signs.countP opens + strayCloses opens depth signs =
      signs.countP (fun sign => !opens sign) + depthAtEnd opens depth signs := by
  induction signs generalizing depth with
  | nil => exact (Nat.zero_add depth).symm
  | cons sign signs ih =>
      have first := depth_add_strayClose opens depth sign
      have others := ih (depthAfter opens depth sign)
      have whole : depthAtEnd opens depth (sign :: signs) =
          depthAtEnd opens (depthAfter opens depth sign) signs := rfl
      rw [whole, strayCloses, List.countP_cons, List.countP_cons]
      omega

end Signs

/-- A word that opens or ends a module, with its place. -/
structure ModuleWord where
  line : Nat
  column : Nat
  opens : Bool
  deriving DecidableEq, Repr

namespace ModuleWord

/-- The module word that a word of a line is, if it is one. -/
def of? (line : Nat) (place : PlacedWord) : Option ModuleWord :=
  if place.word = "module" ∨ place.word = "macromodule" then some ⟨line, place.offset + 1, true⟩
  else if place.word = "endmodule" then some ⟨line, place.offset + 1, false⟩
  else none

/-- The module words of a clean line. -/
def ofLine (line : Nat) (text : List Char) : List ModuleWord :=
  (placedWords 0 text).filterMap (of? line)

/-- The module words of consecutive clean lines, the first of which has the given number. -/
def ofLines (line : Nat) : List (List Char) → List ModuleWord
  | [] => []
  | text :: following => ofLine line text ++ ofLines (line + 1) following

/-- The module words of a source text in reading order. -/
def ofSource (source : String) : List ModuleWord :=
  ofLines 1 (cleanLines false (Text.lines source.toList))

/-- The number of open modules after some words. An end without an open module ends none. -/
def finalDepth (depth : Nat) (words : List ModuleWord) : Nat :=
  depthAtEnd opens depth words

/-- The words with the number of modules that are open before each of them. -/
def met (depth : Nat) : List ModuleWord → List (Nat × ModuleWord)
  | [] => []
  | word :: words => (depth, word) :: met (depthAfter opens depth word) words

/-- The places of the words that count, which may depend on the number of open modules. -/
def placesWhere (counts : Nat → ModuleWord → Bool) (depth : Nat) (words : List ModuleWord) :
    List (Nat × Option Nat) :=
  ((met depth words).filter fun entry => counts entry.1 entry.2).map fun entry =>
    (entry.2.line, some entry.2.column)

/-- Where a module opens inside another one. -/
def nestedPlaces (depth : Nat) (words : List ModuleWord) : List (Nat × Option Nat) :=
  placesWhere (fun depth word => word.opens && 0 < depth) depth words

/-- Where a module ends although none is open. -/
def unmatchedPlaces (depth : Nat) (words : List ModuleWord) : List (Nat × Option Nat) :=
  placesWhere (fun depth word => !word.opens && depth == 0) depth words

/-- The depth before later words is the one after the earlier ones. -/
theorem met_append (depth : Nat) (words others : List ModuleWord) :
    met depth (words ++ others) = met depth words ++ met (finalDepth depth words) others := by
  induction words generalizing depth with
  | nil => rfl
  | cons word words ih => exact congrArg ((depth, word) :: ·) (ih _)

/-- The places in two lists of words stand one after the other. -/
theorem placesWhere_append (counts : Nat → ModuleWord → Bool) (depth : Nat)
    (words others : List ModuleWord) :
    placesWhere counts depth (words ++ others) =
      placesWhere counts depth words ++ placesWhere counts (finalDepth depth words) others := by
  rw [placesWhere, met_append, List.filter_append, List.map_append]
  rfl

@[simp] theorem placesWhere_singleton (counts : Nat → ModuleWord → Bool) (depth : Nat)
    (word : ModuleWord) :
    placesWhere counts depth [word] =
      if counts depth word then [(word.line, some word.column)] else [] := by
  cases count : counts depth word <;> simp [placesWhere, met, count]

/-- The ends without a module are the signs that close nothing. -/
theorem length_unmatchedPlaces (depth : Nat) (words : List ModuleWord) :
    (unmatchedPlaces depth words).length = strayCloses opens depth words := by
  induction words generalizing depth with
  | nil => rfl
  | cons word words ih =>
      have split : unmatchedPlaces depth (word :: words) =
          unmatchedPlaces depth [word] ++ unmatchedPlaces (depthAfter opens depth word) words :=
        placesWhere_append _ depth [word] words
      rw [split, List.length_append, ih, strayCloses, unmatchedPlaces, placesWhere_singleton]
      split <;> rfl

end ModuleWord

/-- The places of the findings with a code. -/
def foundPlaces (code : DiagnosticCode) (found : List (Nat × Finding)) :
    List (Nat × Option Nat) :=
  (found.filter fun entry => entry.2.code == code).map fun entry => (entry.1, entry.2.column?)

/-- The places of the diagnostics with a code, errors before warnings. -/
def Report.places (report : Report) (code : DiagnosticCode) : List (Nat × Option Nat) :=
  ((report.errors ++ report.warnings).filter fun diagnostic => diagnostic.code == code).map
    fun diagnostic => (diagnostic.line, diagnostic.column)

theorem foundPlaces_append (code : DiagnosticCode) (found others : List (Nat × Finding)) :
    foundPlaces code (found ++ others) = foundPlaces code found ++ foundPlaces code others := by
  rw [foundPlaces, List.filter_append, List.map_append]
  rfl

/-- What a condition reports has its place under its own code only. -/
theorem foundPlaces_findingUnless (code : DiagnosticCode) (balanced : Bool) (line : Nat)
    (finding : Finding) :
    foundPlaces code (Survey.findingUnless balanced line finding) =
      if finding.code = code then if balanced then [] else [(line, finding.column?)] else [] := by
  unfold Survey.findingUnless
  by_cases same : finding.code = code
  · cases balanced <;> simp [foundPlaces, same]
  · cases balanced <;> simp [foundPlaces, same]

theorem foundPlaces_of_ne {code : DiagnosticCode} {found : List (Nat × Finding)}
    (others : ∀ entry ∈ found, entry.2.code ≠ code) : foundPlaces code found = [] :=
  List.map_eq_nil_iff.mpr (List.filter_eq_nil_iff.mpr fun entry member same =>
    others entry member (eq_of_beq same))

/-- Findings whose codes are known have no place under a code that is not among them. -/
theorem foundPlaces_eq_nil {code : DiagnosticCode} {codes : List DiagnosticCode} {line : Nat}
    {found : List Finding} (known : ∀ finding ∈ found, finding.code ∈ codes)
    (foreign : code ∉ codes) :
    foundPlaces code (found.map fun finding => (line, finding)) = [] := by
  refine foundPlaces_of_ne fun entry member same => ?_
  obtain ⟨finding, inside, rfl⟩ := List.mem_map.mp member
  exact foreign (same ▸ known finding inside)

/-- What is found in a whole text is reported in the order in which it is found. -/
theorem Report.GoesOn.places {code : DiagnosticCode} {found : List (Nat × Finding)}
    {report : Report} (goesOn : GoesOn found {} report) (isError : code.category = .error) :
    report.places code = foundPlaces code found := by
  have severity (entry : Nat × Finding) (same : entry.2.code = code) :
      (entry.2.diagnostic entry.1).isError = true := by
    simp only [Diagnostic.isError, Finding.diagnostic, same, isError, beq_self_eq_true]
  have errors : report.errors.filter (fun diagnostic => diagnostic.code == code) =
      (found.filter fun entry => entry.2.code == code).map
        fun entry => entry.2.diagnostic entry.1 := by
    rw [goesOn.errors, List.nil_append, List.filter_filter, diagnosticsOf, List.filter_map]
    refine congrArg _ (List.filter_congr fun entry _ => Bool.and_eq_left_iff_imp.mpr fun same => ?_)
    exact severity entry (eq_of_beq same)
  have warnings : report.warnings.filter (fun diagnostic => diagnostic.code == code) = [] := by
    rw [goesOn.warnings, List.nil_append, List.filter_filter, diagnosticsOf]
    refine List.filter_eq_nil_iff.mpr fun diagnostic mem => ?_
    obtain ⟨entry, _, rfl⟩ := List.mem_map.mp mem
    intro both
    obtain ⟨same, other⟩ := Bool.and_eq_true_iff.mp both
    rw [severity entry (eq_of_beq same)] at other
    exact Bool.noConfusion other
  rw [Report.places, List.filter_append, errors, warnings, List.append_nil, List.map_map]
  rfl

namespace Survey

/-- From the earlier survey to the later one some module words were met. The later survey has the
depth after them, and what was found about modules is what the depth before each word says. -/
structure Accounts (words : List ModuleWord) (earlier later : Survey) : Prop where
  depth : later.depth = ModuleWord.finalDepth earlier.depth words
  found : ∃ found, Report.GoesOn found earlier.report later.report ∧
    foundPlaces .nestedModule found = ModuleWord.nestedPlaces earlier.depth words ∧
    foundPlaces .unmatchedEndmodule found = ModuleWord.unmatchedPlaces earlier.depth words ∧
    foundPlaces .missingEndmodule found = []

section Accounts

variable {words others : List ModuleWord} {first second third : Survey}

/-- Words that are met one after the other are accounted for together. -/
theorem Accounts.trans (accounts : Accounts words first second)
    (further : Accounts others second third) : Accounts (words ++ others) first third := by
  obtain ⟨depth, found, goesOn, nested, unmatched, missing⟩ := accounts
  obtain ⟨depthThen, foundThen, goesOnThen, nestedThen, unmatchedThen, missingThen⟩ := further
  refine ⟨?_, found ++ foundThen, goesOn.trans goesOnThen, ?_, ?_, ?_⟩
  · rw [depthThen, depth]
    exact List.foldl_append.symm
  · rw [foundPlaces_append, nested, nestedThen, depth]
    exact (ModuleWord.placesWhere_append ..).symm
  · rw [foundPlaces_append, unmatched, unmatchedThen, depth]
    exact (ModuleWord.placesWhere_append ..).symm
  · rw [foundPlaces_append, missing, missingThen, List.append_nil]

/-- The codes of the findings about words that open or end modules. -/
def moduleCodes : List DiagnosticCode :=
  [.nestedModule, .unmatchedEndmodule, .missingEndmodule]

/-- Findings about other things account for no module word. -/
theorem OnlyFinds.accounts {codes : List DiagnosticCode} {line : Nat}
    (finds : OnlyFinds codes line first second)
    (foreign : ∀ code ∈ moduleCodes, code ∉ codes) : Accounts [] first second := by
  obtain ⟨same, found, known, goesOn⟩ := finds
  refine ⟨by rw [same]; rfl, _, goesOn, ?_, ?_, ?_⟩
  · exact foundPlaces_eq_nil known (foreign _ (by simp [moduleCodes]))
  · exact foundPlaces_eq_nil known (foreign _ (by simp [moduleCodes]))
  · exact foundPlaces_eq_nil known (foreign _ (by simp [moduleCodes]))

theorem Accounts.nothing (depth : second.depth = first.depth)
    (report : second.report = first.report) : Accounts [] first second :=
  ⟨depth, [], .none (congrArg _ report) (congrArg _ report), rfl, rfl, rfl⟩

theorem Accounts.then_finds {codes : List DiagnosticCode} {line : Nat}
    (accounts : Accounts words first second) (finds : OnlyFinds codes line second third)
    (foreign : ∀ code ∈ moduleCodes, code ∉ codes) : Accounts words first third :=
  List.append_nil words ▸ accounts.trans (finds.accounts foreign)

/-- The words that are met one after another are accounted for together. -/
theorem Accounts.foldl {α : Type} {step : Survey → α → Survey} {wordsOf : α → List ModuleWord}
    (one : ∀ survey entry, Accounts (wordsOf entry) survey (step survey entry))
    (entries : List α) (survey : Survey) :
    Accounts (entries.flatMap wordsOf) survey (entries.foldl step survey) := by
  induction entries generalizing survey with
  | nil => exact .nothing rfl rfl
  | cons entry entries ih => exact (one survey entry).trans (ih _)

end Accounts

/-- A module word inside another module is reported, and no other one is. -/
theorem openModule_accounts (survey : Survey) (line : Nat) (text : List Char)
    (place : PlacedWord) :
    Accounts [⟨line, place.offset + 1, true⟩] survey (survey.openModule line text place) := by
  have enters := openModule_enters survey line text place
  refine ⟨enters.depth, _, enters.report, ?_, ?_, ?_⟩
  · by_cases none : survey.depth = 0 <;>
      simp [foundOpening, foundPlaces_append, foundPlaces_findingUnless, Finding.code,
        Finding.column?, ModuleWord.nestedPlaces, none, Nat.pos_iff_ne_zero]
  · simp [foundOpening, foundPlaces_append, foundPlaces_findingUnless, Finding.code,
      ModuleWord.unmatchedPlaces]
  · simp [foundOpening, foundPlaces_append, foundPlaces_findingUnless, Finding.code]

/-- An end without an open module is reported, and no other one is. -/
theorem closeModule_accounts (survey : Survey) (line : Nat) (place : PlacedWord) :
    Accounts [⟨line, place.offset + 1, false⟩] survey (survey.closeModule line place) := by
  have enters := closeModule_enters survey line place
  refine ⟨enters.depth, _, enters.report, ?_, ?_, ?_⟩
  · simp [foundPlaces_findingUnless, Finding.code, ModuleWord.nestedPlaces]
  · by_cases none : survey.depth = 0 <;>
      simp [foundPlaces_findingUnless, Finding.code, Finding.column?, ModuleWord.unmatchedPlaces,
        none, Nat.pos_iff_ne_zero]
  · simp [foundPlaces_findingUnless, Finding.code]

/-- **A word is accounted for** as the module word that it is, or as none. -/
theorem countWord_accounts (line : Nat) (text : List Char) (survey : Survey)
    (place : PlacedWord) :
    Accounts (ModuleWord.of? line place).toList survey (countWord line text survey place) := by
  unfold countWord
  split
  case h_7 opens =>
    simpa [ModuleWord.of?, opens] using openModule_accounts survey line text place
  case h_8 opens =>
    simpa [ModuleWord.of?, opens] using openModule_accounts survey line text place
  case h_9 ends => simpa [ModuleWord.of?, ends] using closeModule_accounts survey line place
  all_goals
    have other : ModuleWord.of? line place = none := by simp_all [ModuleWord.of?]
    rw [other]
    exact .nothing rfl rfl

theorem countDelimiter_accounts (line : Nat) (survey : Survey) (c : Char) :
    Accounts [] survey (countDelimiter line survey c) := by
  unfold countDelimiter
  split <;> exact .nothing rfl rfl

/-- **A line is accounted for** as the module words on it: its delimiters and its segments find
nothing about modules. -/
theorem checkLine_accounts (survey : Survey) (line : Nat) (text : List Char) :
    Accounts (ModuleWord.ofLine line text) survey (survey.checkLine line text) := by
  have delimiters := Accounts.foldl (countDelimiter_accounts line) text survey
  have words := Accounts.foldl (countWord_accounts line text) (placedWords 0 text)
    (text.foldl (countDelimiter line) survey)
  have pieces := OnlyFinds.foldl (checkSegment_onlyFinds line) (segments text)
    ((placedWords 0 text).foldl (countWord line text) (text.foldl (countDelimiter line) survey))
  rw [List.flatMap_eq_nil_iff.mpr fun _ _ => rfl] at delimiters
  rw [← List.filterMap_eq_flatMap_toList] at words
  exact (delimiters.trans words).then_finds pieces (by simp [moduleCodes, segmentCodes])

/-- **Lines are accounted for** as all their module words. -/
theorem checkLines_accounts (survey : Survey) (line : Nat) (lines : List (List Char)) :
    Accounts (ModuleWord.ofLines line lines) survey (survey.checkLines line lines) := by
  induction lines generalizing survey line with
  | nil => exact .nothing rfl rfl
  | cons text following ih => exact (checkLine_accounts survey line text).trans (ih _ _)

/-- An open module is reported at the end of the text, and nothing else about modules. -/
theorem finish_goesOn (survey : Survey) (lastLine : Nat) :
    ∃ found, Report.GoesOn found survey.report (survey.finish lastLine) ∧
      foundPlaces .nestedModule found = [] ∧ foundPlaces .unmatchedEndmodule found = [] ∧
      foundPlaces .missingEndmodule found =
        if survey.depth = 0 then [] else [(lastLine, none)] := by
  refine ⟨survey.leftOpen lastLine, survey.leftOpen_goesOn lastLine, ?_, ?_, ?_⟩ <;>
    simp only [leftOpen, foundPlaces_append, foundPlaces_findingUnless, Finding.code,
      Finding.column?, reduceCtorEq, ↓reduceIte, List.append_nil, decide_eq_true_eq]

end Survey

/-- A report tells how modules open and end in a text with these module words. -/
structure Report.TellsModules (words : List ModuleWord) (lastLine : Nat) (report : Report) :
    Prop where
  nested : report.places .nestedModule = ModuleWord.nestedPlaces 0 words
  unmatched : report.places .unmatchedEndmodule = ModuleWord.unmatchedPlaces 0 words
  missing : report.places .missingEndmodule =
    if ModuleWord.finalDepth 0 words = 0 then [] else [(lastLine, none)]
  balance : words.countP (·.opens) + (report.places .unmatchedEndmodule).length =
    words.countP (fun word => !word.opens) + ModuleWord.finalDepth 0 words

/-- Cleaning keeps the number of lines. -/
theorem length_cleanLines (inComment : Bool) (lines : List (List Char)) :
    (cleanLines inComment lines).length = lines.length := by
  induction lines generalizing inComment with
  | nil => rfl
  | cons line lines ih => exact congrArg (· + 1) (ih _)

/-- **Every module word is accounted for**: a module inside another one, an end without a module
and a module without an end are each reported once, and nothing else is reported about modules. -/
theorem Report.ofSource_tellsModules (source : String) :
    (Report.ofSource source).TellsModules (ModuleWord.ofSource source)
      (max (Text.lines source.toList).length 1) := by
  obtain ⟨depth, found, goesOn, nested, unmatched, missing⟩ :=
    Survey.checkLines_accounts {} 1 (cleanLines false (Text.lines source.toList))
  obtain ⟨last, goesOnLast, nestedLast, unmatchedLast, missingLast⟩ :=
    Survey.finish_goesOn (Survey.checkLines {} 1 (cleanLines false (Text.lines source.toList)))
      (max (cleanLines false (Text.lines source.toList)).length 1)
  have whole : GoesOn (found ++ last) {} (Report.ofSource source) := goesOn.trans goesOnLast
  have unmatchedPlaces : (Report.ofSource source).places .unmatchedEndmodule =
      ModuleWord.unmatchedPlaces 0 (ModuleWord.ofSource source) := by
    rw [whole.places rfl, foundPlaces_append, unmatched, unmatchedLast, List.append_nil]
    rfl
  refine ⟨?_, unmatchedPlaces, ?_, ?_⟩
  · rw [whole.places rfl, foundPlaces_append, nested, nestedLast, List.append_nil]
    rfl
  · rw [whole.places rfl, foundPlaces_append, missing, missingLast, depth, length_cleanLines]
    rfl
  · rw [unmatchedPlaces, ModuleWord.length_unmatchedPlaces, ModuleWord.finalDepth,
      ← countP_add_strayCloses, Nat.zero_add]

end MiniVerilog.Lint
