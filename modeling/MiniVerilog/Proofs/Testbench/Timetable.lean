import MiniVerilog.Proofs.Testbench.Reading

/-! # The timetable of a testbench

A plain reader goes through the lines of a text and notes what is done in the initial blocks, and
how much time has passed since the block began. What it reads from a testbench is what is done in
the blocks of the clocks, the resets and the other inputs (`MiniVerilog.Testbench.events_ofText`).
-/

namespace MiniVerilog.Testbench

/-- What a line of an initial block does. -/
inductive Action where
  | assign (name value : String)
  /-- Inverts a name for ever, each time after the given time. -/
  | toggle (name : String) (period : Nat)
  | wait (time : Nat)
  | finish
  deriving DecidableEq, Repr

namespace Action

/-- The name to which something is done. -/
def target? : Action → Option String
  | assign name _ | toggle name _ => some name
  | wait _ | finish => none

/-- The assignment that a line is: eight spaces, a name without spaces, an equals sign between
spaces, a value and a semicolon. -/
def assignment? (line : String) : Option Action := do
  let text ← line.toList.dropPrefix? "        ".toList
  let value ← (text.dropWhile (· != ' ')).dropPrefix? " = ".toList
  let value ← value.dropSuffix? [';']
  return assign (String.ofList (text.takeWhile (· != ' '))) (String.ofList value)

/-- The toggling of a name that a line is. -/
def toggling? (line : String) : Option Action := do
  let text ← line.toList.dropPrefix? "        forever #".toList
  let period ← Literal.digits? .decimal false (text.takeWhile (· != ' '))
  let text ← (text.dropWhile (· != ' ')).dropPrefix? [' ']
  let name := text.takeWhile (· != ' ')
  if text.dropWhile (· != ' ') = " = ~".toList ++ name ++ [';'] then
    some (toggle (String.ofList name) period)
  else none

/-- The delay that a line is. -/
def delay? (line : String) : Option Action := do
  let text ← line.toList.dropPrefix? "        #".toList
  let digits ← text.dropSuffix? [';']
  return wait (← Literal.digits? .decimal false digits)

/-- What a line does, if it does anything. -/
def ofLine? (line : String) : Option Action :=
  (assignment? line).or ((toggling? line).or ((delay? line).or
    (if line = "        $finish;" then some finish else none)))

end Action

/-- Something that is done some time after the beginning of an initial block, or in none. -/
structure Event where
  block : Option Nat
  time : Nat
  action : Action
  deriving DecidableEq, Repr

/-- What was read from the lines so far: the number of blocks, the block that is open, the time
since it began, and what was done. -/
structure Timetable where
  blocks : Nat := 0
  block : Option Nat := none
  time : Nat := 0
  events : List Event := []
  deriving DecidableEq, Repr

namespace Timetable

/-- Lets time pass, or notes what is done. -/
def perform (timetable : Timetable) : Action → Timetable
  | .wait time => { timetable with time := timetable.time + time }
  | action =>
    { timetable with events := timetable.events ++ [⟨timetable.block, timetable.time, action⟩] }

/-- Begins the next block. -/
def openBlock (timetable : Timetable) : Timetable :=
  { timetable with blocks := timetable.blocks + 1, block := some timetable.blocks, time := 0 }

/-- Reads a line. -/
def readLine (timetable : Timetable) (line : String) : Timetable :=
  if line = "    initial begin" then timetable.openBlock
  else if line = "    end" then { timetable with block := none }
  else
    match Action.ofLine? line with
    | some action => timetable.perform action
    | none => timetable

/-- Reads a text. -/
def ofText (text : String) : Timetable :=
  (Text.linesOf text).foldl readLine {}

/-- Everything that is done to a name. -/
def drivings (timetable : Timetable) (name : String) : List Event :=
  timetable.events.filter fun event => event.action.target? = some name

end Timetable

theorem dropPrefix?_eq_some {text start rest : List Char} :
    text.dropPrefix? start = some rest ↔ text = start ++ rest := by
  rw [List.dropPrefix?_eq_some_iff]
  simp only [beq_iff_eq, exists_eq_right]

theorem dropSuffix?_eq_some {text ending rest : List Char} :
    text.dropSuffix? ending = some rest ↔ text = rest ++ ending := by
  rw [List.dropSuffix?_eq_some_iff]
  simp only [beq_iff_eq, exists_eq_right]

namespace Action

/-- **A line is an assignment** exactly if it has the form of one. -/
theorem assignment?_eq_some_iff {line : String} {action : Action} :
    assignment? line = some action ↔ ∃ name value,
      action = assign name value ∧ line = "        " ++ name ++ " = " ++ value ++ ";" ∧
        ' ' ∉ name.toList := by
  unfold assignment?
  constructor
  · intro read
    obtain ⟨text, indented, read⟩ := Option.bind_eq_some_iff.mp read
    obtain ⟨rest, equals, read⟩ := Option.bind_eq_some_iff.mp read
    obtain ⟨value, ends, read⟩ := Option.bind_eq_some_iff.mp read
    rw [dropPrefix?_eq_some] at indented equals
    rw [dropSuffix?_eq_some] at ends
    refine ⟨_, _, (Option.some.inj read).symm, String.toList_injective ?_, fun member => ?_⟩
    · have split := List.takeWhile_append_dropWhile (p := (· != ' ')) (l := text)
      rw [equals, ends] at split
      simp only [String.toList_append, String.toList_ofList, indented, List.append_assoc]
      exact congrArg _ split.symm
    · rw [String.toList_ofList] at member
      exact absurd (List.mem_takeWhile_imp member) (by decide)
  · rintro ⟨name, value, rfl, rfl, noSpace⟩
    have split : ("        " ++ name ++ " = " ++ value ++ ";").toList = "        ".toList ++
        (name.toList ++ ' ' :: ("= ".toList ++ (value.toList ++ [';']))) := by
      simp only [String.toList_append, List.append_assoc]
      rfl
    have indented := dropPrefix?_eq_some.mpr split
    have equals : (' ' :: ("= ".toList ++ (value.toList ++ [';']))).dropPrefix? " = ".toList =
        some (value.toList ++ [';']) := dropPrefix?_eq_some.mpr rfl
    have ends : (value.toList ++ [';']).dropSuffix? [';'] = some value.toList :=
      dropSuffix?_eq_some.mpr rfl
    simp only [indented, Option.bind_eq_bind, Option.bind_some, Text.dropWhile_mark noSpace,
      equals, ends, Text.takeWhile_mark noSpace, String.ofList_toList]
    rfl

/-- **The line of an assignment is read back**, if the name has no space. -/
theorem ofLine?_assignLine {name : String} (noSpace : ' ' ∉ name.toList) (value : String) :
    ofLine? (assignLine name value) = some (assign name value) := by
  have read : assignment? (assignLine name value) = some (assign name value) :=
    assignment?_eq_some_iff.mpr ⟨name, value, rfl, rfl, noSpace⟩
  rw [ofLine?, read]
  rfl

theorem dropPrefix?_eq_none {text start : List Char} (other : ¬ start <+: text) :
    text.dropPrefix? start = none := by
  refine Option.eq_none_iff_forall_ne_some.mpr fun rest read => other ⟨rest, ?_⟩
  exact (dropPrefix?_eq_some.mp read).symm

/-- What follows the first word of an assignment is an equals sign. -/
theorem assignment?_eq_none {line : String} {word rest : List Char} (noSpace : ' ' ∉ word)
    (split : line.toList = "        ".toList ++ (word ++ ' ' :: rest))
    (other : rest.head? ≠ some '=') : assignment? line = none := by
  have noEquals : ¬ " = ".toList <+: ' ' :: rest := by
    rintro ⟨value, same⟩
    have head : some '=' = rest.head? := congrArg (fun text => text.tail.head?) same
    exact other head.symm
  rw [assignment?, dropPrefix?_eq_some.mpr split]
  simp only [Option.bind_eq_bind, Option.bind_some, Text.dropWhile_mark noSpace,
    dropPrefix?_eq_none noEquals, Option.bind_none]

/-- A line that is no assignment does nothing if another character stands after the margin. -/
theorem ofLine?_eq_none {line : String} (unassigned : assignment? line = none)
    (other : ∀ c ∈ ['f', '#', '$'], ¬ "        ".toList ++ [c] <+: line.toList) :
    ofLine? line = none := by
  have noForever : ¬ "        forever #".toList <+: line.toList := fun start =>
    other 'f' (by decide) (.trans ⟨_, rfl⟩ start)
  have noToggle : toggling? line = none := by
    rw [toggling?, dropPrefix?_eq_none noForever]
    rfl
  have noHash : ¬ "        #".toList <+: line.toList := other '#' (by decide)
  have noDelay : delay? line = none := by
    rw [delay?, dropPrefix?_eq_none noHash]
    rfl
  have noFinish : line ≠ "        $finish;" := by
    rintro rfl
    exact other '$' (by decide) ⟨_, rfl⟩
  rw [ofLine?, unassigned, noToggle, noDelay, if_neg noFinish]
  rfl

/-- A line that is not indented by eight spaces does nothing. -/
theorem ofLine?_of_outer {line : String} (outer : ¬ "        ".toList <+: line.toList) :
    ofLine? line = none := by
  have unassigned : assignment? line = none := by
    rw [assignment?, dropPrefix?_eq_none outer]
    rfl
  exact ofLine?_eq_none unassigned fun c _ start => outer (.trans ⟨_, rfl⟩ start)

/-- The line that toggles a clock is read back. -/
theorem ofLine?_clockLine {name : String} (noSpace : ' ' ∉ name.toList) :
    ofLine? ("        forever #5 " ++ name ++ " = ~" ++ name ++ ";") = some (toggle name 5) := by
  have split : ("        forever #5 " ++ name ++ " = ~" ++ name ++ ";").toList =
      "        forever #".toList ++ ("5".toList ++ ' ' ::
        (name.toList ++ ' ' :: ("= ~".toList ++ (name.toList ++ [';'])))) := by
    simp only [String.toList_append, List.append_assoc]
    rfl
  have forever : ' ' ∉ "forever".toList := by decide
  have unassigned := assignment?_eq_none forever split nofun
  have five : ' ' ∉ "5".toList := by decide
  have period : Literal.digits? .decimal false "5".toList = some 5 := rfl
  have gap : (' ' :: (name.toList ++ ' ' :: ("= ~".toList ++ (name.toList ++ [';'])))).dropPrefix?
      [' '] = some (name.toList ++ ' ' :: ("= ~".toList ++ (name.toList ++ [';']))) :=
    dropPrefix?_eq_some.mpr rfl
  have toggles : toggling? ("        forever #5 " ++ name ++ " = ~" ++ name ++ ";") =
      some (toggle name 5) := by
    rw [toggling?, dropPrefix?_eq_some.mpr split]
    simp only [Option.bind_eq_bind, Option.bind_some, Text.takeWhile_mark five,
      Text.dropWhile_mark five, period, gap, Text.takeWhile_mark noSpace,
      Text.dropWhile_mark noSpace, String.ofList_toList]
    exact if_pos rfl
  rw [ofLine?, unassigned, toggles]
  rfl

end Action

/-- A line at which nothing is done and no block begins or ends. -/
def IsIdle (line : String) : Prop :=
  line ≠ "    initial begin" ∧ line ≠ "    end" ∧ Action.ofLine? line = none

instance (line : String) : Decidable (IsIdle line) :=
  inferInstanceAs (Decidable (_ ∧ _ ∧ _))

namespace IsIdle

/-- A line whose last character is no letter begins or ends no block. -/
theorem of_ending {text ending : String}
    (closed : ending.toList.getLast?.any (fun c => !c.isAlpha) = true)
    (idle : Action.ofLine? (text ++ ending) = none) : IsIdle (text ++ ending) := by
  have other {line : String} (letter : line.toList.getLast?.any Char.isAlpha = true) :
      text ++ ending ≠ line := by
    rintro rfl
    rw [String.toList_append, List.getLast?_append] at letter
    cases last : ending.toList.getLast? with
    | none =>
        rw [last] at closed
        cases closed
    | some c =>
        rw [last, Option.any_some, Bool.not_eq_true'] at closed
        rw [last, Option.some_or, Option.any_some, closed] at letter
        cases letter
  exact ⟨other rfl, other rfl, idle⟩

theorem header (name : String) : IsIdle ("module " ++ name ++ "_tb;") := by
  refine of_ending rfl (Action.ofLine?_of_outer fun ⟨rest, same⟩ => ?_)
  simp only [String.toList_append, List.append_assoc] at same
  cases (congrArg List.head? same : some ' ' = some 'm')

/-- A line of four spaces and a word does nothing. -/
theorem of_word {word text : String} (isWord : Source.IsWord word)
    (closed : text.toList.getLast?.any (fun c => !c.isAlpha) = true) :
    IsIdle ("    " ++ word ++ text) := by
  refine of_ending closed (Action.ofLine?_of_outer fun ⟨rest, same⟩ => ?_)
  obtain ⟨first, others, letters⟩ := List.exists_cons_of_ne_nil isWord.toList_ne_nil
  have visible : Text.isBlank first = false :=
    isWord.not_isBlank first (letters ▸ List.mem_cons_self)
  rw [String.toList_append, String.toList_append, letters] at same
  have space : some ' ' = some first := congrArg (fun text => text[4]?) same
  rw [← Option.some.inj space] at visible
  cases visible

/-- A declaration is idle: it is indented by four spaces only. -/
theorem declaration (port : Port) : IsIdle (declarationLine port) := by
  have words : Source.IsWord "reg" ∧ Source.IsWord "wire" := by decide
  have closed : (rangeText port.width ++ " " ++ port.name ++ ";").toList.getLast?.any
      (fun c => !c.isAlpha) = true := by
    rw [String.toList_append, List.getLast?_append]
    rfl
  have line (kind : String) : "    " ++ kind ++ rangeText port.width ++ " " ++ port.name ++ ";" =
      "    " ++ kind ++ (rangeText port.width ++ " " ++ port.name ++ ";") := by
    simp only [String.append_assoc]
  rw [declarationLine]
  cases port.direction with
  | input =>
      rw [line]
      exact of_word words.1 closed
  | output | inout =>
      rw [line]
      exact of_word words.2 closed

/-- What is after the margin of a connection is no name with an equals sign behind it. -/
theorem connection {name : String} (noSpace : ' ' ∉ name.toList) (length : Nat) {comma : String}
    (closed : (")" ++ comma).toList.getLast?.any (fun c => !c.isAlpha) = true) :
    IsIdle ("        ." ++ Text.padded length name ++ " (" ++ name ++ ")" ++ comma) := by
  have joined : "        ." ++ Text.padded length name ++ " (" ++ name ++ ")" ++ comma =
      "        ." ++ Text.padded length name ++ " (" ++ name ++ (")" ++ comma) :=
    String.append_assoc
  -- Before the bracket stand the spaces of the padding, if there are any.
  obtain ⟨c, rest, other, split⟩ : ∃ c rest, c ≠ '=' ∧
      ("        ." ++ Text.padded length name ++ " (" ++ name ++ (")" ++ comma)).toList =
        "        ".toList ++ ('.' :: name.toList ++ ' ' :: c :: rest) := by
    simp only [Text.padded, String.toList_append, String.toList_ofList, List.append_assoc]
    cases length - name.length with
    | zero => exact ⟨'(', _, by decide, rfl⟩
    | succ size =>
        cases size with
        | zero => exact ⟨' ', _, by decide, rfl⟩
        | succ => exact ⟨' ', _, by decide, rfl⟩
  rw [joined]
  have noDot : ' ' ∉ '.' :: name.toList :=
    List.not_mem_cons_of_ne_of_not_mem (by decide) noSpace
  have unassigned := Action.assignment?_eq_none noDot split fun same =>
    other (Option.some.inj same)
  refine of_ending closed (Action.ofLine?_eq_none unassigned ?_)
  rintro c member ⟨rest, same⟩
  rw [split] at same
  have dot : some c = some '.' := congrArg (fun text => text[8]?) same
  rw [Option.some.inj dot] at member
  exact absurd member (by decide)

/-- A connection is idle: it starts with a point after its eight spaces, and is no assignment. -/
theorem connections (length : Nat) {ports : List Port}
    (noSpace : ∀ port ∈ ports, ' ' ∉ port.name.toList) :
    ∀ line ∈ connectionLines length ports, IsIdle line := by
  induction ports with
  | nil => exact nofun
  | cons port ports ih =>
      obtain ⟨first, others⟩ := List.forall_mem_cons.mp noSpace
      refine List.forall_mem_cons.mpr ⟨connection first length ?_, ih others⟩
      split <;> rfl

/-- The instance of the module is idle. -/
theorem instanceLines {module : Module} (isWord : Source.IsWord module.name)
    (noSpace : ∀ port ∈ module.ports, ' ' ∉ port.name.toList) :
    ∀ line ∈ instanceLines module, IsIdle line := by
  unfold Testbench.instanceLines
  split
  · exact List.forall_mem_singleton.mpr (of_word isWord rfl)
  · have closing : IsIdle "    );" := by decide
    refine List.forall_mem_append.mpr ⟨List.forall_mem_append.mpr ⟨?_, connections _ noSpace⟩, ?_⟩
    · exact List.forall_mem_singleton.mpr (of_word isWord rfl)
    · exact List.forall_mem_singleton.mpr closing

end IsIdle

/-- What is done in a block from a time on. -/
def eventsOf (block : Option Nat) (time : Nat) : List Action → List Event
  | [] => []
  | .wait delay :: actions => eventsOf block (time + delay) actions
  | action :: actions => ⟨block, time, action⟩ :: eventsOf block time actions

/-- What is done in blocks that are numbered from `first` on. -/
def blockEvents (first : Nat) : List (List Action) → List Event
  | [] => []
  | actions :: blocks => eventsOf (some first) 0 actions ++ blockEvents (first + 1) blocks

/-- The numbers of later blocks go on after the first ones. -/
theorem blockEvents_append (first : Nat) (blocks others : List (List Action)) :
    blockEvents first (blocks ++ others) =
      blockEvents first blocks ++ blockEvents (first + blocks.length) others := by
  induction blocks generalizing first with
  | nil => rfl
  | cons actions blocks ih =>
      rw [List.cons_append, blockEvents, blockEvents, ih, List.append_assoc, List.length_cons,
        Nat.add_right_comm, Nat.add_assoc]

/-- Performing actions in a block adds their events at the times since the block began, and changes
nothing else but the time. -/
theorem foldl_perform (timetable : Timetable) (actions : List Action) :
    ∃ time, actions.foldl Timetable.perform timetable =
      { timetable with
        time := time
        events := timetable.events ++ eventsOf timetable.block timetable.time actions } := by
  induction actions generalizing timetable with
  | nil =>
      rw [List.foldl_nil, eventsOf, List.append_nil]
      exact ⟨timetable.time, rfl⟩
  | cons action actions ih =>
      obtain ⟨time, performed⟩ := ih (timetable.perform action)
      refine ⟨time, ?_⟩
      rw [List.foldl_cons, performed]
      cases action with
      | wait => rfl
      | _ => exact congrArg (Timetable.mk _ _ _) (List.append_assoc _ _ _)

/-- **A line at which something is done** is no line at which a block begins or ends. -/
theorem readLine_of_ofLine? {line : String} {action : Action}
    (read : Action.ofLine? line = some action) (timetable : Timetable) :
    timetable.readLine line = timetable.perform action := by
  have other {text : String} (idle : Action.ofLine? text = none) : line ≠ text := by
    rintro rfl
    cases idle.symm.trans read
  rw [Timetable.readLine, if_neg (other rfl), if_neg (other rfl), read]

/-- Reading the lines of a body performs their actions. -/
theorem foldl_readLine_body {body : List String} {actions : List Action}
    (read : body.map Action.ofLine? = actions.map some) (timetable : Timetable) :
    body.foldl Timetable.readLine timetable = actions.foldl Timetable.perform timetable := by
  induction body generalizing actions timetable with
  | nil =>
      rw [List.map_eq_nil_iff.mp read.symm]
      rfl
  | cons line body ih =>
      cases actions with
      | nil => cases read
      | cons action actions =>
          obtain ⟨first, others⟩ := List.cons.inj read
          rw [List.foldl_cons, List.foldl_cons, readLine_of_ofLine? first, ih others]

/-- Lines that are read as initial blocks with these actions. -/
def AreBlocks (lines : List String) (blocks : List (List Action)) : Prop :=
  ∀ timetable : Timetable, timetable.block = none →
    ∃ time, lines.foldl Timetable.readLine timetable =
      { timetable with
        blocks := timetable.blocks + blocks.length
        time := time
        events := timetable.events ++ blockEvents timetable.blocks blocks }

namespace AreBlocks

variable {lines others : List String} {blocks otherBlocks : List (List Action)}

/-- Idle lines are no blocks. -/
theorem of_idle (idle : ∀ line ∈ lines, IsIdle line) : AreBlocks lines [] := by
  intro timetable _
  refine ⟨timetable.time, ?_⟩
  rw [blockEvents, List.append_nil]
  induction lines with
  | nil => rfl
  | cons line lines ih =>
      obtain ⟨⟨noBegin, noEnd, unread⟩, others⟩ := List.forall_mem_cons.mp idle
      rw [List.foldl_cons, Timetable.readLine, if_neg noBegin, if_neg noEnd, unread]
      exact ih others

/-- Lines after lines are read as the blocks of both. -/
theorem append (first : AreBlocks lines blocks) (second : AreBlocks others otherBlocks) :
    AreBlocks (lines ++ others) (blocks ++ otherBlocks) := by
  intro timetable outside
  obtain ⟨between, firstRead⟩ := first timetable outside
  obtain ⟨time, secondRead⟩ := second
    { timetable with
      blocks := timetable.blocks + blocks.length
      time := between
      events := timetable.events ++ blockEvents timetable.blocks blocks } outside
  refine ⟨time, ?_⟩
  rw [List.foldl_append, firstRead, secondRead, blockEvents_append, List.length_append,
    List.append_assoc, Nat.add_assoc]

/-- If every entry has the lines of one block, the lines of all are read as a block for each. -/
theorem flatMap {α : Type} {entries : List α} {linesOf : α → List String}
    {actionsOf : α → List Action}
    (each : ∀ entry ∈ entries, AreBlocks (linesOf entry) [actionsOf entry]) :
    AreBlocks (entries.flatMap linesOf) (entries.map actionsOf) := by
  induction entries with
  | nil => exact of_idle nofun
  | cons entry entries ih =>
      obtain ⟨first, others⟩ := List.forall_mem_cons.mp each
      exact first.append (ih others)

/-- **An initial block is read as one block** with the actions of its body. -/
theorem initialBlock {body : List String} {actions : List Action}
    (read : body.map Action.ofLine? = actions.map some) :
    AreBlocks (initialBlock body) [actions] := by
  intro timetable outside
  obtain ⟨time, performed⟩ := foldl_perform timetable.openBlock actions
  refine ⟨time, ?_⟩
  have split : (Testbench.initialBlock body).foldl Timetable.readLine timetable =
      (body.foldl Timetable.readLine timetable.openBlock).readLine "    end" := by
    rw [Testbench.initialBlock, List.foldl_append, List.foldl_append]
    rfl
  rw [split, foldl_readLine_body read, performed, outside, blockEvents, blockEvents,
    List.append_nil]
  rfl

end AreBlocks

/-- What is done for a clock. -/
def clockActions (clock : Port) : List Action :=
  [.assign clock.name "0", .toggle clock.name 5]

/-- Assignments to all ports. -/
def assignAll (value : Port → String) (ports : List Port) : List Action :=
  ports.map fun port => .assign port.name (value port)

/-- What is done for the resets. -/
def resetActions (resets : List Port) : List Action :=
  assignAll (fun reset => resetValue true reset.name) resets ++
    .wait 20 :: assignAll (fun reset => resetValue false reset.name) resets

/-- The block for the resets, if there are any. -/
def resetBlocks (resets : List Port) : List (List Action) :=
  if resets.isEmpty then [] else [resetActions resets]

/-- What is done for the inputs that are neither clocks nor resets. -/
def stimulusActions (stimuli : List Port) : List Action :=
  assignAll (fun port => allOnes port.width) stimuli ++
    .wait 100 :: (assignAll (fun _ => "0") stimuli ++ [.wait 100, .finish])

/-- What is done in the initial blocks of the testbench of a module. -/
def actionsOf (module : Module) : List (List Action) :=
  (clocks module).map clockActions ++
    (resetBlocks (resets module) ++ [stimulusActions (stimuli module)])

/-- Lines that assign to all ports are read as assignments to all ports. -/
theorem map_ofLine?_assignLine {ports : List Port}
    (noSpace : ∀ port ∈ ports, ' ' ∉ port.name.toList) (value : Port → String) :
    (ports.map fun port => assignLine port.name (value port)).map Action.ofLine? =
      (assignAll value ports).map some := by
  rw [assignAll, List.map_map, List.map_map]
  exact List.map_congr_left fun port member => Action.ofLine?_assignLine (noSpace port member) _

namespace AreBlocks

variable {ports : List Port} (noSpace : ∀ port ∈ ports, ' ' ∉ port.name.toList)
include noSpace

/-- Each clock is read as a block that toggles it. -/
theorem clocks : AreBlocks (ports.flatMap clockBlock) (ports.map clockActions) := by
  refine .flatMap fun clock member => .initialBlock ?_
  have named := noSpace clock member
  rw [List.map_cons, List.map_cons, Action.ofLine?_assignLine named,
    Action.ofLine?_clockLine named]
  rfl

/-- The block of the resets is read as one block, or is not there. -/
theorem resets : AreBlocks (resetBlock ports) (resetBlocks ports) := by
  unfold resetBlock resetBlocks
  split
  · exact of_idle nofun
  · refine initialBlock ?_
    rw [List.map_append, List.map_append, map_ofLine?_assignLine noSpace,
      map_ofLine?_assignLine noSpace, List.append_assoc, resetActions, List.map_append]
    rfl

/-- The block for the other inputs is read as one block. -/
theorem stimuli : AreBlocks (stimulusBlock ports) [stimulusActions ports] := by
  refine initialBlock ?_
  simp only [List.map_append, map_ofLine?_assignLine noSpace, stimulusActions, List.map_cons,
    List.append_assoc]
  rfl

end AreBlocks

section Module

variable {module : Module}

/-- Nothing is done before the first block. -/
theorem IsIdle.opening (isWord : Source.IsWord module.name)
    (noSpace : ∀ port ∈ module.ports, ' ' ∉ port.name.toList) :
    ∀ line ∈ ["`timescale 1ns / 1ps", "", "module " ++ module.name ++ "_tb;", ""] ++
      module.ports.map declarationLine ++ (if module.ports.isEmpty then [] else [""]) ++
        Testbench.instanceLines module, IsIdle line := by
  have timescale : IsIdle "`timescale 1ns / 1ps" := by decide
  have empty : IsIdle "" := by decide
  refine List.forall_mem_append.mpr ⟨List.forall_mem_append.mpr ⟨List.forall_mem_append.mpr
    ⟨?_, ?_⟩, ?_⟩, instanceLines isWord noSpace⟩
  · simp only [List.forall_mem_cons]
    exact ⟨timescale, empty, header module.name, empty, nofun⟩
  · exact List.forall_mem_map.mpr fun port _ => declaration port
  · split
    · exact nofun
    · exact List.forall_mem_singleton.mpr empty

/-- **The initial blocks of a testbench** are those of the clocks, of the resets and of the other
inputs. -/
theorem areBlocks_lines (isWord : Source.IsWord module.name)
    (noSpace : ∀ port ∈ module.ports, ' ' ∉ port.name.toList) :
    AreBlocks (lines module) (actionsOf module) := by
  have kept {property : Port → Bool} :
      ∀ port ∈ module.ports.filter property, ' ' ∉ port.name.toList := fun port member =>
    noSpace port (List.mem_of_mem_filter member)
  have clockLines : AreBlocks ((clocks module).flatMap clockBlock)
      ((clocks module).map clockActions) := .clocks kept
  have resetLines : AreBlocks (resetBlock (resets module)) (resetBlocks (resets module)) :=
    .resets kept
  have stimulusLines : AreBlocks (stimulusBlock (stimuli module))
      [stimulusActions (stimuli module)] := .stimuli kept
  have closing : AreBlocks ["", "endmodule"] [] := .of_idle (by decide)
  have all := (AreBlocks.of_idle (IsIdle.opening isWord noSpace)).append
    (clockLines.append (resetLines.append (stimulusLines.append closing)))
  simp only [lines, List.append_assoc] at all ⊢
  exact all

/-- **What is read from a testbench** is what is done in its initial blocks. -/
theorem events_ofText {source : String} (parsed : Module.ofSource? source = some module) :
    (Timetable.ofText (text module)).events = blockEvents 0 (actionsOf module) := by
  have name := Module.isLexeme_name parsed
  have ports : ∀ port ∈ module.ports, Token.IsLexeme .identifier port.name := fun _ =>
    Module.isLexeme_of_mem_ports parsed
  have noSpace : ∀ port ∈ module.ports, ' ' ∉ port.name.toList := fun port member space =>
    absurd ((ports port member).not_isBlank TokenKind.noConfusion TokenKind.noConfusion ' ' space)
      (by decide)
  have isWord := name.isWord TokenKind.noConfusion TokenKind.noConfusion
  have areBlocks := areBlocks_lines isWord noSpace
  obtain ⟨time, read⟩ := areBlocks {} rfl
  rw [Timetable.ofText, text,
    Text.linesOf_join (isLine_of_mem_lines name (isLexeme_benchName name) ports), read]
  rfl

end Module

end MiniVerilog.Testbench
