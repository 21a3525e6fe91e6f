import MiniVerilog.Settings.Basic
import MiniVerilog.Text.Blank
import MiniVerilog.Toml.Document

/-! # Loading settings

Settings are read from a document and then checked. A record is a table, or an
array of its fields in order. The records of the whole settings, of a simulation
and of a regression have defaults and admit no other keys; those of a clock and
of a drive have to be complete, and other keys in them are ignored.
-/

namespace MiniVerilog.Settings

def string? : Toml → Option String
  | .string text => some text
  | _ => none

def natural? : Toml → Option Nat
  | .integer (.ofNat value) => some value
  | _ => none

def value? : Toml → Option Value
  | .integer value => some (Int64.ofInt value)
  | _ => none

def boolean? : Toml → Option Bool
  | .boolean value => some value
  | _ => none

/-- The items of an array. -/
def items? : Toml → Option (List Toml)
  | .array items => some items
  | .tables elements => some (elements.map (.table .defined))
  | _ => none

/-- An array of items of one kind. -/
def list? {α : Type} (item? : Toml → Option α) (value : Toml) : Option (List α) := do
  (← items? value).mapM item?

/-- The entries of a table. -/
def table? : Toml → Option Toml.Entries
  | .inlineTable entries => some entries
  | .table _ entries => some entries
  | _ => none

/-- A trigger mode: its word, or a table with that key and nothing in it. -/
def trigger? (value : Toml) : Option TriggerMode :=
  match value with
  | .string word => TriggerMode.ofSpelling? word
  | _ =>
    match table? value with
    | some [(word, content)] =>
      match items? content, table? content with
      | some [], _ => TriggerMode.ofSpelling? word
      | _, some [] => TriggerMode.ofSpelling? word
      | _, _ => none
    | _ => none

/-- The entries of a record with the given fields, and others if it is open. -/
def record? (fields : List String) (isOpen : Bool) (value : Toml) : Option Toml.Entries :=
  match items? value with
  | some items => some (fields.zip items)
  | none =>
    (table? value).filter fun entries =>
      isOpen || entries.all fun entry => fields.contains entry.1

/-- A field that has to be there. -/
def required? {α : Type} (name : String) (field? : Toml → Option α) (entries : Toml.Entries) :
    Option α :=
  (entries.lookup name).bind field?

/-- A field with a default. -/
def optional? {α : Type} (name : String) (default : α) (field? : Toml → Option α)
    (entries : Toml.Entries) : Option α :=
  match entries.lookup name with
  | some value => field? value
  | none => some default

def clock? (value : Toml) : Option ClockStimulus := do
  let entries ← record? ["signal", "half_period"] true value
  return {
    signal := ← required? "signal" string? entries
    halfPeriod := ← required? "half_period" natural? entries }

def drive? (value : Toml) : Option Drive := do
  let entries ← record? ["time", "signal", "value"] true value
  return {
    time := ← required? "time" natural? entries
    signal := ← required? "signal" string? entries
    value := ← required? "value" value? entries }

def simulation? (value : Toml) : Option SimulationConfig := do
  let entries ← record? ["max_steps", "signals", "trigger", "clocks", "drives"] false value
  let standard : SimulationConfig := {}
  return {
    maxSteps := ← optional? "max_steps" standard.maxSteps natural? entries
    signals := ← optional? "signals" standard.signals (list? string?) entries
    trigger := ← optional? "trigger" standard.trigger trigger? entries
    clocks := ← optional? "clocks" standard.clocks (list? clock?) entries
    drives := ← optional? "drives" standard.drives (list? drive?) entries }

def regression? (value : Toml) : Option RegressionSettings := do
  let entries ← record? ["suites", "fail_fast"] false value
  let standard : RegressionSettings := {}
  return {
    suites := ← optional? "suites" standard.suites (list? string?) entries
    failFast := ← optional? "fail_fast" standard.failFast boolean? entries }

/-- The settings in a document. -/
def ofEntries? (entries : Toml.Entries) : Option Settings := do
  let entries ← record? ["simulation", "regression"] false (.inlineTable entries)
  return {
    simulation := ← optional? "simulation" {} simulation? entries
    regression := ← optional? "regression" {} regression? entries }

/-- A name of nothing but blanks. -/
def isNameless (name : String) : Bool :=
  Text.trimString name == ""

def checkClock (clock : ClockStimulus) : Except SettingsError Unit :=
  if isNameless clock.signal then .error .namelessClock
  else if clock.halfPeriod = 0 then .error (.stillClock clock.signal)
  else .ok ()

def checkDrive (drive : Drive) : Except SettingsError Unit :=
  if isNameless drive.signal then .error (.namelessDrive drive.time) else .ok ()

/-- Checks the stimulus, clocks before drives. -/
def check (settings : Settings) : Except SettingsError Unit := do
  settings.simulation.clocks.forM checkClock
  settings.simulation.drives.forM checkDrive

/-- The settings in a text. -/
def ofText (text : String) : Except SettingsError Settings := do
  match (Toml.parse? text).bind ofEntries? with
  | none => throw .malformed
  | some settings =>
    settings.check
    return settings

/-- The settings in what was read from a file. -/
def ofFile (content : Except FileError String) : Except SettingsError Settings :=
  match content with
  | .ok text => ofText text
  | .error reason => .error (.unreadable reason)

/-- The settings in what was read from a file, or the defaults if it is missing. -/
def ofOptionalFile (content : Except FileError String) : Except SettingsError Settings :=
  match content with
  | .error .missing => .ok {}
  | content => ofFile content

end MiniVerilog.Settings
