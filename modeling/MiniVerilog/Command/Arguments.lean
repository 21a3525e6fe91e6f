import MiniVerilog.Command.Invocation

/-! # Reading arguments

Arguments name a verb, and before or after it options. An option has a long name
after two hyphens, and some have a letter after one hyphen. A value stands in the
same argument, after an equals sign or directly after a letter, or in the next
one. Letters can share one hyphen. After two hyphens alone, no options follow.

An option may be given once, unless it collects values or counts. The options
that all verbs share may also stand before the verb; after it they win. In place of
a verb, help can be asked for, also about one verb.
-/

namespace MiniVerilog.Command

/-- The reason why arguments are refused. -/
inductive UsageError where
  /-- An unknown, repeated, incomplete or superfluous argument, or a bad value. -/
  | malformed
  | stimulus (reason : StimulusError)
  deriving DecidableEq, Repr

/-- The wording of the error. -/
def UsageError.message : UsageError → String
  | malformed => "the arguments cannot be understood"
  | stimulus reason => reason.message

/-- An option. -/
inductive OptionName where
  | quiet | verbose | color | config | format | steps | signals | edge | clock | drive | vcd
  | output | suite | case | failFast | list | version | help
  deriving DecidableEq, Repr

namespace OptionName

/-- The long name. -/
def spelling : OptionName → String
  | quiet => "quiet"
  | verbose => "verbose"
  | color => "color"
  | config => "config"
  | format => "format"
  | steps => "steps"
  | signals => "signals"
  | edge => "edge"
  | clock => "clock"
  | drive => "drive"
  | vcd => "vcd"
  | output => "output"
  | suite => "suite"
  | case => "case"
  | failFast => "fail-fast"
  | list => "list"
  | version => "version"
  | help => "help"

/-- The letter, if there is one. -/
def letter? : OptionName → Option Char
  | quiet => some 'q'
  | verbose => some 'v'
  | format => some 'f'
  | output => some 'o'
  | version => some 'V'
  | help => some 'h'
  | _ => none

/-- The option stands for itself and has no value. -/
def isFlag : OptionName → Bool
  | quiet | verbose | edge | failFast | list | version | help => true
  | _ => false

/-- The option may be given more than once. -/
def isRepeatable : OptionName → Bool
  | verbose | signals | clock | drive | suite => true
  | _ => false

end OptionName

/-- The options given so far. -/
structure Options where
  given : List OptionName := []
  verbosity : Nat := 0
  color : Option Color := none
  settingsPath : Option String := none
  format : Format := .text
  overrides : Overrides := {}
  dump : Option String := none
  output : Option String := none
  suites : List String := []
  case : Option String := none
  file : Option String := none

namespace Options

/-- The option was given. -/
def has (options : Options) (name : OptionName) : Bool :=
  options.given.contains name

/-- A path is not empty. -/
def path (text : String) : Except UsageError String :=
  if text = "" then .error .malformed else .ok text

/-- One of some things that are chosen by their words. -/
def choice {α : Type} (spelling : α → String) (choices : List α) (word : String) :
    Except UsageError α :=
  match choices.find? fun choice => spelling choice = word with
  | some choice => .ok choice
  | none => .error .malformed

/-- Takes over an option with its value; that of a flag is empty. -/
def set (options : Options) (name : OptionName) (value : String) : Except UsageError Options := do
  if options.has name && !name.isRepeatable then throw .malformed
  let options := { options with given := name :: options.given }
  let overrides := options.overrides
  match name with
  | .verbose => return { options with verbosity := options.verbosity + 1 }
  | .color =>
    return { options with color := ← choice Color.spelling [.auto, .always, .never] value }
  | .config => return { options with settingsPath := value }
  | .format => return { options with format := ← choice Format.spelling [.text, .json] value }
  | .steps =>
    let some count := stepCount? value | throw .malformed
    return { options with overrides := { overrides with maxSteps := count } }
  | .signals =>
    let names := (value.toList.splitOn ',').map String.ofList
    return { options with overrides := { overrides with signals := overrides.signals ++ names } }
  | .clock =>
    let clock ← (ClockStimulus.ofText value).mapError .stimulus
    return { options with overrides := { overrides with clocks := overrides.clocks ++ [clock] } }
  | .drive =>
    let drive ← (Drive.ofText value).mapError .stimulus
    return { options with overrides := { overrides with drives := overrides.drives ++ [drive] } }
  | .vcd => return { options with dump := ← path value }
  | .output => return { options with output := ← path value }
  | .suite => return { options with suites := options.suites ++ [value] }
  | .case => return { options with case := value }
  | .edge => return { options with overrides := { overrides with edge := true } }
  | .quiet | .failFast | .list | .version | .help => return options

end Options

/-- The verb that an invocation starts with. -/
inductive Verb where
  | lex | check | parse | sim | testbench | regress
  deriving DecidableEq, Repr

namespace Verb

/-- The word. -/
def spelling : Verb → String
  | lex => "lex"
  | check => "check"
  | parse => "parse"
  | sim => "sim"
  | testbench => "testbench"
  | regress => "regress"

/-- The verb that a word stands for. -/
def ofSpelling? (word : String) : Option Verb :=
  [lex, check, parse, sim, testbench, regress].find? fun verb => verb.spelling = word

/-- The number of operands: the source file, if the verb needs one. -/
def room : Verb → Nat
  | regress => 0
  | _ => 1

/-- The options of a verb of its own. -/
def options : Verb → List OptionName
  | lex => [.format]
  | check => [.format]
  | parse => []
  | sim => [.steps, .signals, .edge, .clock, .drive, .vcd, .format]
  | testbench => [.output]
  | regress => [.suite, .case, .failFast, .list, .format]

end Verb

/-- The options that may stand with any verb. -/
def sharedOptions : List OptionName :=
  [.quiet, .verbose, .color, .config, .help]

/-- A part of the arguments. -/
inductive Item where
  /-- An option with its value, which can stand apart in an argument of its own. A
  flag has an empty value. -/
  | option (name : OptionName) (value : String) (apart : Bool)
  /-- An option without the value it needs. -/
  | incomplete
  | operand (text : String)
  /-- Something that has no meaning where it stands. -/
  | unknown
  deriving DecidableEq, Repr

/-- The value directly after a letter, if there is one. -/
def attached? : List Char → Option String
  | [] => none
  | '=' :: value => some (String.ofList value)
  | value => some (String.ofList value)

/-- The items that letters after one hyphen stand for, and the option whose value
is the next argument. -/
def letterItems (known : List OptionName) : List Char → List Item × Option OptionName
  | [] => ([], none)
  | letter :: letters =>
    match known.find? fun name => name.letter? = some letter with
    | none => ([.unknown], none)
    | some name =>
      if name.isFlag then
        let following := letterItems known letters
        (.option name "" false :: following.1, following.2)
      else
        match attached? letters with
        | some value => ([.option name value false], none)
        | none => ([], some name)

/-- The items that a text after two hyphens stands for, and the option whose value
is the next argument. -/
def longItems (known : List OptionName) (text : List Char) : List Item × Option OptionName :=
  let value? := match text.dropWhile (· != '=') with
    | _ :: value => some (String.ofList value)
    | [] => none
  match known.find? fun name => name.spelling.toList = text.takeWhile (· != '='), value? with
  | none, _ => ([.unknown], none)
  | some name, none => if name.isFlag then ([.option name "" false], none) else ([], some name)
  | some name, some value =>
    (if name.isFlag then [.unknown] else [.option name value false], none)

/-- How an argument is meant. -/
inductive Form where
  /-- Two hyphens alone. -/
  | closing
  /-- An option after two hyphens. -/
  | long (text : List Char)
  /-- Letters after one hyphen. -/
  | letters (text : List Char)
  /-- Anything else, also a hyphen alone. -/
  | word
  deriving DecidableEq, Repr

/-- The form of an argument. -/
def Form.ofArgument (argument : String) : Form :=
  match argument.toList with
  | ['-', '-'] => closing
  | '-' :: '-' :: text => long text
  | '-' :: c :: text => letters (c :: text)
  | _ => word

/-- The items of an argument with an option, and the option whose value is the next
argument. -/
def Form.items (known : List OptionName) : Form → List Item × Option OptionName
  | long text => longItems known text
  | letters text => letterItems known text
  | _ => ([], none)

/-- The operands of a verb, of which there can be a number. -/
def operandItems (room : Nat) (arguments : List String) : List Item :=
  (arguments.take room).map .operand ++ if room < arguments.length then [.unknown] else []

/-- The items of the arguments after a verb. -/
def verbItems (known : List OptionName) (room : Nat) (arguments : List String) : List Item :=
  match arguments with
  | [] => []
  | argument :: rest =>
    match Form.ofArgument argument with
    | .closing => operandItems room rest
    | .word =>
      if room = 0 then [.unknown] else .operand argument :: verbItems known (room - 1) rest
    | form =>
      match form.items known with
      | (items, none) => items ++ verbItems known room rest
      | (items, some name) =>
        match rest with
        | [] => items ++ [.incomplete]
        | value :: rest =>
          if Form.ofArgument value = .word then
            items ++ .option name value true :: verbItems known room rest
          else items ++ [.incomplete]

/-- What the arguments before the verb lead to. -/
inductive Goal where
  /-- No verb, or arguments after which none is looked for. -/
  | missing
  /-- The word that asks for help, and the words after it. -/
  | help (topics : List String)
  | verb (verb : Verb) (arguments : List String)
  deriving DecidableEq, Repr

/-- The word that asks for help. -/
def helpWord : String :=
  "help"

/-- The items before the verb, and what they lead to. -/
def leadingItems (known : List OptionName) (arguments : List String) : List Item × Goal :=
  match arguments with
  | [] => ([], .missing)
  | argument :: rest =>
    match Form.ofArgument argument with
    | .closing => (operandItems 0 rest, .missing)
    | .word =>
      if argument = helpWord then ([], .help rest)
      else
        match Verb.ofSpelling? argument with
        | some verb => ([], .verb verb rest)
        | none => ([.unknown], .missing)
    | form =>
      match form.items known with
      | (items, none) =>
        let following := leadingItems known rest
        (items ++ following.1, following.2)
      | (items, some name) =>
        match rest with
        | [] => (items ++ [.incomplete], .missing)
        | value :: rest =>
          if Form.ofArgument value = .word then
            let following := leadingItems known rest
            (items ++ .option name value true :: following.1, following.2)
          else (items ++ [.incomplete], .missing)

/-- Splits off the last item if it is an option whose value stands apart. -/
def splitLast (items : List Item) : List Item × List Item :=
  match items.getLast? with
  | some (.option name value true) => (items.dropLast, [.option name value true])
  | _ => (items, [])

/-- Takes over items in order. Version and help end this. A value that stands apart
is looked at after the form of the next item. -/
def Options.takeAll (options : Options) : List Item → Except UsageError Options
  | [] => .ok options
  | .option name value apart :: items => do
    if apart && items.head? == some .unknown then throw .malformed
    let options ← options.set name value
    if name = .version ∨ name = .help then return options
    options.takeAll items
  | .operand text :: items => do
    let file ← path text
    { options with file := file }.takeAll items
  | .incomplete :: _ => .error .malformed
  | .unknown :: _ => .error .malformed

/-- What the arguments ask for. -/
inductive Request where
  | version
  | help
  | run (invocation : Invocation)
  deriving DecidableEq, Repr

/-- The cases that are chosen, one or those of suites, but not both. -/
def Options.selection (options : Options) : Except UsageError (Option Regression.Selection) :=
  match options.case, options.suites with
  | some id, [] => .ok (some (.case id))
  | some _, _ :: _ => .error .malformed
  | none, [] => .ok none
  | none, suites => .ok (some (.suites suites))

/-- The source file, which has to be there. -/
def Options.source (options : Options) : Except UsageError String :=
  match options.file with
  | some file => .ok file
  | none => .error .malformed

/-- The action of a verb with its options. -/
def Verb.action (verb : Verb) (options : Options) : Except UsageError Action := do
  match verb with
  | .lex => return .lex (← options.source) options.format
  | .check => return .check (← options.source) options.format
  | .parse => return .parse (← options.source)
  | .sim => return .simulate (← options.source) options.overrides options.dump options.format
  | .testbench => return .testbench (← options.source) options.output
  | .regress =>
    let selection ← options.selection
    if options.has .list then return .listCases
    return .regress selection (options.has .failFast) options.format

/-- The request for help. It can be about one verb, or about help itself. -/
def Request.ofTopics : List String → Except UsageError Request
  | [] => .ok .help
  | [topic] =>
    if topic = helpWord ∨ (Verb.ofSpelling? topic).isSome then .ok .help else .error .malformed
  | _ => .error .malformed

/-- The request of a verb. Of the options before it, those in the items are taken
over last. -/
def Request.ofVerb (leading : Options) (last : List Item) (verb : Verb)
    (arguments : List String) : Except UsageError Request := do
  let items := verbItems (verb.options ++ sharedOptions) verb.room arguments
  let options ← ({} : Options).takeAll items
  if options.has .help then return .help
  let action ← verb.action options
  let leading ← leading.takeAll last
  return .run {
    quiet := leading.has .quiet || options.has .quiet
    verbosity := if options.verbosity = 0 then leading.verbosity else options.verbosity
    color := (options.color.or leading.color).getD .auto
    settingsPath := options.settingsPath.or leading.settingsPath
    action }

/-- What arguments ask for. A value that stands directly before the verb is looked
at after the arguments of the verb. -/
def Request.ofArguments (arguments : List String) : Except UsageError Request := do
  let (items, goal) := leadingItems (.version :: sharedOptions) arguments
  let (first, last) := splitLast items
  let leading ← ({} : Options).takeAll first
  if leading.has .version then return .version
  if leading.has .help then return .help
  match goal with
  | .missing => throw .malformed
  | .help topics => Request.ofTopics topics
  | .verb verb arguments => Request.ofVerb leading last verb arguments

end MiniVerilog.Command
