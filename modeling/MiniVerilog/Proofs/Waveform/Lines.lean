import Mathlib.Data.Bool.AllAny
import MiniVerilog.Proofs.Waveform.Changes

/-! # The lines of a dump

The lines before the values are read as the codes of the signals
(`MiniVerilog.Waveform.foldl_headerLines`), and the text of a dump has the lines that were
written (`MiniVerilog.Waveform.linesOf_dump`).
-/

namespace MiniVerilog.Waveform

open Source (IsWord joined)
open Text (IsLine)

/-- The lines that every dump starts with. -/
def firstLines : List String :=
  ["$date", "  Simulation date", "$end", "$version", "  Rivet simulator", "$end", "$timescale",
    "  1ns", "$end"]

/-- The header of a dump is its first lines, the scope, the declarations and the end of the
definitions. -/
theorem headerLines_eq_append (scope : String) (declared : List String) :
    headerLines scope declared =
      firstLines ++ ["$scope module " ++ scope ++ " $end"] ++ declared ++
        ["$upscope $end", "$enddefinitions $end"] :=
  rfl

/-- The words that declare a signal. -/
def declaration (index : Nat) (name : String) : List String :=
  ["$var", "wire", "1", String.ofList (code index), name, "$end"]

/-- A declaration is made of words if the name is one. -/
theorem isWord_of_mem_declaration {name : String} (isWord : IsWord name) (index : Nat) :
    ∀ word ∈ declaration index name, IsWord word := by
  intro word member
  simp only [declaration, List.mem_cons, List.not_mem_nil, or_false] at member
  rcases member with rfl | rfl | rfl | rfl | rfl | rfl
  · decide
  · decide
  · decide
  · exact isWord_code index
  · exact isWord
  · decide

/-- The declared traces are those with codes. -/
theorem declarations_eq_coded (index : Nat) (entries : List (String × Trace)) :
    (declarations index entries).map Prod.snd = (coded index entries).map Prod.snd := by
  induction entries generalizing index with
  | nil => rfl
  | cons entry entries ih => rw [declarations, coded, List.map_cons, List.map_cons, ih]

/-- The line of a declaration is its words with spaces between them. -/
theorem line_eq_joined (index : Nat) (name : String) :
    "$var wire 1 " ++ String.ofList (code index) ++ " " ++ name ++ " $end" =
      joined (declaration index name) := by
  have start : "$var wire 1 " = "$var" ++ " " ++ "wire" ++ " " ++ "1" ++ " " := by decide
  have last : " $end" = " " ++ "$end" := by decide
  rw [start, last, joined, declaration]
  simp only [String.intercalate_cons_cons, String.intercalate_singleton, String.append_assoc]

/-- Every line among the declarations declares one of the entries. -/
theorem exists_of_mem_declarations {line : String} {index : Nat}
    {entries : List (String × Trace)} (member : line ∈ (declarations index entries).map Prod.fst) :
    ∃ place, ∃ entry ∈ entries, line = joined (declaration place entry.1) := by
  induction entries generalizing index with
  | nil => cases member
  | cons entry entries ih =>
      rcases List.mem_cons.mp member with here | later
      · exact ⟨index, entry, List.mem_cons_self, here.trans (line_eq_joined index entry.1)⟩
      · obtain ⟨place, other, inside, written⟩ := ih later
        exact ⟨place, other, List.mem_cons_of_mem _ inside, written⟩

open DumpReading

variable {reading : DumpReading}

theorem readLine_of_definitions (definitions : reading.defined = false) (line : String) :
    reading.readLine line = reading.readDeclaration line :=
  if_neg (ne_true_of_eq_false definitions)

/-- **A declaration is read back** as a code with its name. -/
theorem readLine_declaration (definitions : reading.defined = false) {name : String}
    (isWord : IsWord name) (index : Nat) :
    reading.readLine (joined (declaration index name)) =
      { reading with codes := reading.codes ++ [(String.ofList (code index), name)] } := by
  have words := Text.wordsOf_joined (isWord_of_mem_declaration isWord index)
  rw [readLine_of_definitions definitions, readDeclaration, words]
  rfl

/-- **All declarations are read back** in their order. The induction is on the entries, with the
index of the first code. -/
theorem foldl_declarations (definitions : reading.defined = false)
    {entries : List (String × Trace)} (areWords : ∀ entry ∈ entries, IsWord entry.1)
    (index : Nat) :
    ((declarations index entries).map Prod.fst).foldl readLine reading =
      { reading with
        codes := reading.codes ++ (coded index entries).map fun signal =>
          (signal.2.code, signal.1) } := by
  induction entries generalizing reading index with
  | nil => rw [declarations, coded, List.map_nil, List.map_nil, List.append_nil, List.foldl_nil]
  | cons entry entries ih =>
      have first := readLine_declaration definitions (areWords entry List.mem_cons_self) index
      rw [← line_eq_joined] at first
      rw [declarations, coded, List.map_cons, List.foldl_cons, first, ih, List.map_cons,
        List.append_assoc]
      · rfl
      · exact definitions
      · exact fun other member => areWords other (List.mem_cons_of_mem _ member)

/-- A line that declares no signal and does not end the definitions. -/
def IsOther (line : String) : Prop :=
  (Text.wordsOf line).head? ≠ some "$var" ∧ (Text.wordsOf line).head? ≠ some "$enddefinitions"

instance (line : String) : Decidable (IsOther line) :=
  inferInstanceAs (Decidable (_ ∧ _))

/-- A line that declares nothing is passed over. -/
theorem readLine_other (definitions : reading.defined = false) {line : String}
    (other : IsOther line) : reading.readLine line = reading := by
  obtain ⟨noVar, noEnd⟩ := other
  rw [readLine_of_definitions definitions, readDeclaration]
  split
  · rename_i words
    rw [words] at noVar
    exact (noVar rfl).elim
  · rename_i words
    rw [words] at noEnd
    exact (noEnd rfl).elim
  · rfl

/-- Lines that declare nothing are passed over. -/
theorem foldl_others (definitions : reading.defined = false) {lines : List String}
    (others : ∀ line ∈ lines, IsOther line) : lines.foldl readLine reading = reading := by
  induction lines with
  | nil => rfl
  | cons line lines ih =>
      rw [List.foldl_cons, readLine_other definitions (others line List.mem_cons_self)]
      exact ih fun other member => others other (List.mem_cons_of_mem _ member)

/-- The line of the scope declares nothing, whatever the scope is. -/
theorem isOther_scope (scope : String) : IsOther ("$scope module " ++ scope ++ " $end") := by
  have isWord : IsWord "$scope" := by decide
  have characters : ("$scope module " ++ scope ++ " $end").toList =
      "$scope".toList ++ ' ' :: ("module " ++ scope ++ " $end").toList := by
    simp only [String.toList_append, List.append_assoc]
    rfl
  have first : (Text.wordsOf ("$scope module " ++ scope ++ " $end")).head? = some "$scope" := by
    rw [Text.wordsOf, characters, Text.words_append_blank isWord (by decide), List.map_cons,
      String.ofList_toList]
    rfl
  rw [IsOther, first]
  decide

/-- **The lines before the values are read as the codes of the signals.** -/
theorem foldl_headerLines {entries : List (String × Trace)}
    (areWords : ∀ entry ∈ entries, IsWord entry.1) (scope : String) :
    (headerLines scope ((declarations 0 entries).map Prod.fst)).foldl readLine {} =
      { codes := (coded 0 entries).map fun signal => (signal.2.code, signal.1)
        defined := true } := by
  have fixed : ∀ line ∈ firstLines, IsOther line := by decide
  have scopeLine : ∀ line ∈ ["$scope module " ++ scope ++ " $end"], IsOther line :=
    List.forall_mem_singleton.mpr (isOther_scope scope)
  have closing : IsOther "$upscope $end" := by decide
  have ended : Text.wordsOf "$enddefinitions $end" = ["$enddefinitions", "$end"] := by decide
  rw [headerLines_eq_append, List.foldl_append, List.foldl_append, List.foldl_append,
    foldl_others rfl fixed, foldl_others rfl scopeLine, foldl_declarations rfl areWords,
    List.foldl_cons, List.foldl_cons, List.foldl_nil, readLine_other rfl closing,
    readLine_of_definitions rfl, readDeclaration, ended]
  rfl

/-- The only blanks in the lines of the header are spaces, if the scope has no blank. -/
theorem isLine_of_mem_headerLines {scope : String}
    (noBlank : ∀ c ∈ scope.toList, Text.isBlank c = false) {declared : List String}
    (areLines : ∀ line ∈ declared, IsLine line) :
    ∀ line ∈ headerLines scope declared, IsLine line := by
  have fixed : ∀ line ∈ firstLines, IsLine line := by decide
  have starts : IsLine "$scope module " := by decide
  have ends : IsLine " $end" := by decide
  have scopeLine : IsLine ("$scope module " ++ scope ++ " $end") :=
    (starts.append (Text.isLine_of_isBlank_eq_false noBlank)).append ends
  have closing : ∀ line ∈ ["$upscope $end", "$enddefinitions $end"], IsLine line := by decide
  have opening := List.forall_mem_append.mpr ⟨fixed, List.forall_mem_singleton.mpr scopeLine⟩
  exact List.forall_mem_append.mpr ⟨List.forall_mem_append.mpr ⟨opening, areLines⟩, closing⟩

theorem isLine_time (time : Nat) : IsLine ("#" ++ toString time) := by
  have sign : IsLine "#" := by decide
  have digits : IsLine (toString time) :=
    Text.isLine_of_isBlank_eq_false fun _ => Text.isBlank_of_mem_toString
  exact sign.append digits

/-- The only blanks in the line of a sample are spaces. -/
theorem isLine_value {held : CodedTrace} (isWord : IsWord held.code) (index : Nat) :
    IsLine (held.line index) := by
  have code := Text.isLine_of_isBlank_eq_false isWord.not_isBlank
  have zero : IsLine "0" := by decide
  have one : IsLine "1" := by decide
  rw [CodedTrace.line]
  split
  · exact one.append code
  · exact zero.append code

/-- The only blanks in the lines of a moment are spaces. -/
theorem isLine_of_mem_sampleLines {traces : List CodedTrace}
    (areWords : ∀ held ∈ traces, IsWord held.code) (index time : Nat) :
    ∀ line ∈ sampleLines traces index time, IsLine line := by
  have values : ∀ line ∈ (traces.filter (CodedTrace.changes index)).map (CodedTrace.line index),
      IsLine line := by
    intro line member
    obtain ⟨held, inside, rfl⟩ := List.mem_map.mp member
    exact isLine_value (areWords held (List.mem_of_mem_filter inside)) index
  have dumpvars : IsLine "$dumpvars" := by decide
  have ends : ∀ line ∈ ["$end"], IsLine line := by decide
  rw [sampleLines]
  split
  · exact List.forall_mem_nil _
  · rename_i changed _
    refine List.forall_mem_cons.mpr ⟨isLine_time time, ?_⟩
    split
    · exact List.forall_mem_append.mpr ⟨List.forall_mem_cons.mpr ⟨dumpvars, values⟩, ends⟩
    · exact values

/-- The only blanks in the lines of all moments are spaces. -/
theorem isLine_of_mem_valueLines {traces : List CodedTrace}
    (areWords : ∀ held ∈ traces, IsWord held.code) (index : Nat) (times : List Nat) :
    ∀ line ∈ valueLines traces index times, IsLine line := by
  induction times generalizing index with
  | nil => exact List.forall_mem_nil _
  | cons time times ih =>
      exact List.forall_mem_append.mpr
        ⟨isLine_of_mem_sampleLines areWords index time, ih (index + 1)⟩

variable {waveform : Waveform} {scope : String}

/-- **The text of a dump has the lines that were written.** -/
theorem linesOf_dump (areWords : ∀ entry ∈ waveform.signals.entries, IsWord entry.1)
    (noBlank : ∀ c ∈ scope.toList, Text.isBlank c = false) :
    Text.linesOf (waveform.dump scope) = waveform.dumpLines scope := by
  apply Text.linesOf_join
  have declared : ∀ line ∈ (declarations 0 waveform.signals.entries).map Prod.fst,
      IsLine line := by
    intro line member
    obtain ⟨place, entry, inside, rfl⟩ := exists_of_mem_declarations member
    exact Text.isLine_joined (isWord_of_mem_declaration (areWords entry inside) place)
  have codes : ∀ held ∈ (declarations 0 waveform.signals.entries).map Prod.snd,
      IsWord held.code := by
    intro held member
    rw [declarations_eq_coded] at member
    obtain ⟨signal, inside, rfl⟩ := List.mem_map.mp member
    obtain ⟨place, -, written⟩ := exists_code_of_mem_coded inside
    rw [written]
    exact isWord_code place
  exact List.forall_mem_append.mpr ⟨isLine_of_mem_headerLines noBlank declared,
    isLine_of_mem_valueLines codes 0 waveform.times.toList⟩

/-- **A dump is read as the changes of its samples.** -/
theorem ofText_dump (areWords : ∀ entry ∈ waveform.signals.entries, IsWord entry.1)
    (noBlank : ∀ c ∈ scope.toList, Text.isBlank c = false) :
    DumpReading.ofText (waveform.dump scope) =
      { codes := (coded 0 waveform.signals.entries).map fun signal => (signal.2.code, signal.1)
        defined := true
        times := valueTimes (coded 0 waveform.signals.entries) 0 waveform.times.toList
        changes := valueChanges (coded 0 waveform.signals.entries) 0 waveform.times.toList } := by
  have known : ∀ signal ∈ coded 0 waveform.signals.entries,
      ((coded 0 waveform.signals.entries).map fun signal =>
        (signal.2.code, signal.1)).lookup signal.2.code = some signal.1 :=
    fun signal member => lookup_code (nodup_codes 0 waveform.signals.entries) member
  rw [DumpReading.ofText, linesOf_dump areWords noBlank, dumpLines, List.foldl_append,
    foldl_headerLines areWords, declarations_eq_coded, foldl_valueLines rfl rfl known]
  rfl

end MiniVerilog.Waveform
