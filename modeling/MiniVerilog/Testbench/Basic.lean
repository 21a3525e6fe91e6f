import MiniVerilog.Module.Basic
import MiniVerilog.Text.Blank

/-! # Testbenches

A testbench declares a variable or a net for every port of a module, connects
them to an instance, drives clocks and resets by their names, and gives all other
inputs all ones and then zero.
-/

namespace MiniVerilog.Testbench

/-- A name in lower case; only ASCII letters have one. -/
def lower (name : String) : List Char :=
  name.toList.map Char.toLower

/-- The name ends in an underscore and a word. -/
def endsIn (ending : String) (name : String) : Bool :=
  ending.toList.isSuffixOf (lower name)

/-- The name of a clock. -/
def isClockName (name : String) : Bool :=
  lower name == "clk".toList || lower name == "clock".toList || endsIn "_clk" name

/-- The name of a signal that is active when it is 0. -/
def isActiveLow (name : String) : Bool :=
  endsIn "_n" name

/-- The name of a reset. -/
def isResetName (name : String) : Bool :=
  lower name == "rst".toList || lower name == "reset".toList || isActiveLow name

/-- The inputs that are clocks. -/
def clocks (module : Module) : List Port :=
  module.ports.filter fun port => port.direction == .input && isClockName port.name

/-- The inputs that are resets and not clocks. -/
def resets (module : Module) : List Port :=
  module.ports.filter fun port =>
    port.direction == .input && !isClockName port.name && isResetName port.name

/-- The inputs that are neither clocks nor resets. -/
def stimuli (module : Module) : List Port :=
  module.ports.filter fun port =>
    port.direction == .input && !isClockName port.name && !isResetName port.name

/-- The range of a declaration, with a space before it. -/
def rangeText (width : Nat) : String :=
  if 1 < width then " [" ++ toString (width - 1) ++ ":0]" else ""

/-- The declaration of what is connected to a port. -/
def declarationLine (port : Port) : String :=
  let kind := match port.direction with
    | .input => "reg"
    | .output | .inout => "wire"
  "    " ++ kind ++ rangeText port.width ++ " " ++ port.name ++ ";"

/-- The lines that connect ports, with a comma after all but the last. -/
def connectionLines (length : Nat) : List Port → List String
  | [] => []
  | port :: ports =>
    ("        ." ++ Text.padded length port.name ++ " (" ++ port.name ++ ")" ++
      (if ports.isEmpty then "" else ",")) :: connectionLines length ports

/-- The instance of the module. Names are padded to the largest size of a name in
bytes. -/
def instanceLines (module : Module) : List String :=
  if module.ports.isEmpty then ["    " ++ module.name ++ " uut ();"]
  else
    let length := (module.ports.map fun port => port.name.utf8ByteSize).foldl max 0
    ["    " ++ module.name ++ " uut ("] ++ connectionLines length module.ports ++ ["    );"]

/-- A statement that assigns a value to a name. -/
def assignLine (name value : String) : String :=
  "        " ++ name ++ " = " ++ value ++ ";"

/-- An initial block after an empty line. -/
def initialBlock (body : List String) : List String :=
  ["", "    initial begin"] ++ body ++ ["    end"]

/-- The block that toggles a clock. -/
def clockBlock (clock : Port) : List String :=
  initialBlock
    [assignLine clock.name "0",
      "        forever #5 " ++ clock.name ++ " = ~" ++ clock.name ++ ";"]

/-- The value of a reset while it is asserted, or after it is released. -/
def resetValue (asserted : Bool) (name : String) : String :=
  if asserted == isActiveLow name then "0" else "1"

/-- The block that asserts all resets and releases them, if there are any. -/
def resetBlock (resets : List Port) : List String :=
  if resets.isEmpty then []
  else
    initialBlock
      (resets.map (fun reset => assignLine reset.name (resetValue true reset.name)) ++
        ["        #20;"] ++
        resets.map fun reset => assignLine reset.name (resetValue false reset.name))

/-- The value of a width with every bit set. -/
def allOnes (width : Nat) : String :=
  if 1 < width then "\x7b" ++ toString width ++ "\x7b1'b1\x7d\x7d" else "1"

/-- The block that gives all ones and then zero to inputs, and ends the run. -/
def stimulusBlock (stimuli : List Port) : List String :=
  initialBlock
    (stimuli.map (fun port => assignLine port.name (allOnes port.width)) ++ ["        #100;"] ++
      stimuli.map (fun port => assignLine port.name "0") ++
      ["        #100;", "        $finish;"])

/-- The lines of the testbench of a module. -/
def lines (module : Module) : List String :=
  ["`timescale 1ns / 1ps", "", "module " ++ module.name ++ "_tb;", ""] ++
    module.ports.map declarationLine ++ (if module.ports.isEmpty then [] else [""]) ++
    instanceLines module ++ (clocks module).flatMap clockBlock ++ resetBlock (resets module) ++
    stimulusBlock (stimuli module) ++ ["", "endmodule"]

/-- The testbench of a module. -/
def text (module : Module) : String :=
  String.join ((lines module).map (· ++ "\n"))

end MiniVerilog.Testbench
