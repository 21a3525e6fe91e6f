import MiniVerilog.Number.Literal
import MiniVerilog.Simulation.Config

/-! # Stimulus on the command line

A clock is given as `NAME` or `NAME:HALF_PERIOD`, a drive as `NAME=VALUE@TIME`. A
value is a literal, perhaps with a minus sign.
-/

namespace MiniVerilog

/-- The largest number of steps or time, which has 64 bits. -/
def maxCount : Nat :=
  18446744073709551615

/-- The text without a plus sign before it. -/
def dropPlus (text : List Char) : List Char :=
  match text with
  | '+' :: rest => rest
  | _ => text

/-- The number of steps or the time that a text gives in decimal: digits, perhaps
after a plus sign. -/
def stepCount? (text : String) : Option Nat :=
  let digits := dropPlus text.toList
  if digits.isEmpty || digits.any (fun c => !c.isDigit) then none
  else
    (Literal.digits? .decimal false digits).filter fun count => count ≤ maxCount

/-- The reason why a stimulus is refused. -/
inductive StimulusError where
  | halfPeriod (text : String)
  | namelessClock
  | zeroHalfPeriod
  /-- The text has not the form of a drive. -/
  | driveForm (text : String)
  | namelessDrive
  | value (text : String)
  | time (text : String)
  deriving DecidableEq, Repr

/-- The wording of the error. -/
def StimulusError.message : StimulusError → String
  | halfPeriod text => "invalid half period `" ++ text ++ "`"
  | namelessClock => "clock signal name is empty"
  | zeroHalfPeriod => "half period must be at least 1"
  | driveForm text => "expected NAME=VALUE@TIME, got `" ++ text ++ "`"
  | namelessDrive => "drive signal name is empty"
  | value text => "invalid value `" ++ text ++ "`"
  | time text => "invalid time `" ++ text ++ "`"

/-- The texts before and after the first place where a character stands. -/
def splitAt? (mark : Char) (text : String) : Option (String × String) :=
  match text.toList.dropWhile (· != mark) with
  | _ :: after => some (String.ofList (text.toList.takeWhile (· != mark)), String.ofList after)
  | [] => none

/-- A clock, which needs a name and has to toggle at some time. -/
def ClockStimulus.make (signal : String) (halfPeriod : Nat) : Except StimulusError ClockStimulus :=
  if signal = "" then .error .namelessClock
  else if halfPeriod = 0 then .error .zeroHalfPeriod
  else .ok ⟨signal, halfPeriod⟩

/-- The clock that a text gives. The half period is 1 if it is left out. -/
def ClockStimulus.ofText (text : String) : Except StimulusError ClockStimulus :=
  match splitAt? ':' text with
  | none => make text 1
  | some (signal, halfPeriod) =>
    match stepCount? halfPeriod with
    | some count => make signal count
    | none => .error (.halfPeriod halfPeriod)

/-- The text that gives a clock. -/
def ClockStimulus.text (clock : ClockStimulus) : String :=
  clock.signal ++ ":" ++ toString clock.halfPeriod

/-- The value of a literal with an optional minus sign. -/
def signedValue? (text : String) : Option Value :=
  match text.toList with
  | '-' :: magnitude => (Literal.parse? magnitude).map (-·)
  | literal => Literal.parse? literal

/-- The drive that a text gives. -/
def Drive.ofText (text : String) : Except StimulusError Drive := do
  let some (signal, rest) := splitAt? '=' text | throw (.driveForm text)
  let some (valueText, timeText) := splitAt? '@' rest | throw (.driveForm text)
  if signal = "" then throw .namelessDrive
  let some value := signedValue? valueText | throw (.value valueText)
  let some time := stepCount? timeText | throw (.time timeText)
  return { time, signal, value }

/-- The text that gives a drive. -/
def Drive.text (drive : Drive) : String :=
  drive.signal ++ "=" ++ toString drive.value.toInt ++ "@" ++ toString drive.time

end MiniVerilog
