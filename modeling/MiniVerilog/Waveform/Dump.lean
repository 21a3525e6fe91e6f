import MiniVerilog.Waveform.Basic

/-! # Waveforms as value change dumps

A dump declares every signal as a wire of one bit under a short code, gives all
values at the first time, and then only the values that change. Times without a
change are left out.
-/

namespace MiniVerilog.Waveform

/-- The code of the signal with a number: digits in base 94, the lowest first,
written with the printable characters from `!` on. A code of more digits goes on
where the codes of fewer digits end. -/
def code (index : Nat) : List Char :=
  let digit := Char.ofNat ('!'.toNat + index % 94)
  if index < 94 then [digit] else digit :: code (index / 94 - 1)
termination_by index
decreasing_by omega

/-- A trace with the code it is written under. -/
structure CodedTrace where
  code : String
  trace : Trace

namespace CodedTrace

/-- A sample is written if it is the first one or differs from the one before. -/
def changes (index : Nat) (coded : CodedTrace) : Bool :=
  index == 0 || coded.trace.values[index]? != coded.trace.values[index - 1]?

/-- The line that gives a sample. -/
def line (index : Nat) (coded : CodedTrace) : String :=
  (if coded.trace.values[index]?.getD false then "1" else "0") ++ coded.code

end CodedTrace

/-- The signals with the lines that declare them, numbered from `index` on. -/
def declarations (index : Nat) : List (String × Trace) → List (String × CodedTrace)
  | [] => []
  | (name, trace) :: signals =>
    let code := String.ofList (code index)
    ("$var wire 1 " ++ code ++ " " ++ name ++ " $end", ⟨code, trace⟩) ::
      declarations (index + 1) signals

/-- The lines before the values. -/
def headerLines (scope : String) (declared : List String) : List String :=
  ["$date", "  Simulation date", "$end", "$version", "  Rivet simulator", "$end", "$timescale",
    "  1ns", "$end", "$scope module " ++ scope ++ " $end"] ++ declared ++
    ["$upscope $end", "$enddefinitions $end"]

/-- The lines for the sample with an index, taken at a time. -/
def sampleLines (traces : List CodedTrace) (index time : Nat) : List String :=
  match traces.filter (CodedTrace.changes index) with
  | [] => []
  | changed =>
    ("#" ++ toString time) ::
      if index = 0 then "$dumpvars" :: changed.map (CodedTrace.line index) ++ ["$end"]
      else changed.map (CodedTrace.line index)

/-- The lines for consecutive samples, the first of which has the given index. -/
def valueLines (traces : List CodedTrace) (index : Nat) : List Nat → List String
  | [] => []
  | time :: times => sampleLines traces index time ++ valueLines traces (index + 1) times

/-- The lines of the dump of a waveform under a scope. -/
def dumpLines (waveform : Waveform) (scope : String) : List String :=
  let declared := declarations 0 waveform.signals.entries
  headerLines scope (declared.map (·.1)) ++
    valueLines (declared.map (·.2)) 0 waveform.times.toList

/-- The dump of a waveform under a scope. -/
def dump (waveform : Waveform) (scope : String) : String :=
  String.join ((waveform.dumpLines scope).map (· ++ "\n"))

/-- The dump on a medium that may hold a limited number of bytes. -/
def dumpWithin (waveform : Waveform) (scope : String) (limit : Option Nat) :
    Except SimulationError String :=
  let text := waveform.dump scope
  if limit.any (· < text.utf8ByteSize) then .error (.waveformIo "disk full") else .ok text

end MiniVerilog.Waveform
