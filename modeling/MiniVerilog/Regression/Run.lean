import MiniVerilog.Regression.Registry
import MiniVerilog.Regression.Report

/-! # Running regression cases

Cases run one after another and on their own. A run may stop at the first
failure. Time is not measured here.
-/

namespace MiniVerilog.Regression

/-- The result of running a case. -/
def Case.result (case : Case) : CaseResult where
  id := case.id
  name := case.name
  category := case.category
  priority := case.priority
  message :=
    match case.run with
    | .ok () => none
    | .error failure => some failure.message

/-- The results of cases, up to the first failure if that is to stop the run. -/
def results (failFast : Bool) : List Case → List CaseResult
  | [] => []
  | case :: cases =>
    let result := case.result
    if failFast && !result.passed then [result] else result :: results failFast cases

/-- The report on running cases. -/
def runCases (failFast : Bool) (cases : List Case) : Report :=
  Report.ofResults (results failFast cases) 0

/-- The report on running the selected cases. -/
def Registry.run (registry : Registry) (failFast : Bool) (selection : Selection) :
    Except RegistryError Report := do
  return runCases failFast (← registry.select selection)

end MiniVerilog.Regression
