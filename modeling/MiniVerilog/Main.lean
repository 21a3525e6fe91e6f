import MiniVerilog.Command.Plan

/-! # The command line -/

namespace MiniVerilog.Command

/-- A code of the system, which can be given with the opposite sign. -/
def isCode (code given : UInt32) : Bool :=
  given == code || given == -code

/-- The reason of a failure of the system. -/
def fileError (reason : IO.Error) : FileError :=
  match reason with
  | .noFileOrDirectory .. => .missing
  | .inappropriateType _ code _ => if isCode 20 code then .notDirectory else .directory
  | .invalidArgument _ code _ => if isCode 36 code then .nameTooLong else .other (toString reason)
  | _ => .other (toString reason)

/-- Reads the text of a file. -/
def readText (path : String) : IO (Except FileError String) := do
  try
    return FileError.decode (← IO.FS.readBinFile path)
  catch reason =>
    return .error (fileError reason)

/-- Carries out a plan. -/
def perform (plan : Plan) : IO UInt32 := do
  IO.print plan.output
  if let some (path, text) := plan.file then
    try
      IO.FS.writeFile path text
    catch reason =>
      let failed := Plan.failure (fileError reason).message
      IO.eprint failed.remarks
      return failed.exitCode.toUInt32
  IO.eprint plan.remarks
  return plan.exitCode.toUInt32

end MiniVerilog.Command

open MiniVerilog MiniVerilog.Command in
/-- Reads the files that a request needs and carries it out. -/
def main (arguments : List String) : IO UInt32 := do
  match Request.ofArguments arguments with
  | .error reason =>
    IO.eprint ("error: " ++ reason.message ++ "\n")
    return 2
  | .ok request =>
    let inputs ← request.inputs.mapM fun path => do return (path, ← readText path)
    let terminal ← (← IO.getStdout).isTty
    perform (request.plan terminal fun path => (inputs.lookup path).getD (.error .missing))
