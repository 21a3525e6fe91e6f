import MiniVerilog.Proofs.Regression.Report
import MiniVerilog.Regression.Run

/-! # Runs that stop at a failure

A run that stops at the first failure finds the results of a full run up to and with that failure,
so both succeed or neither does (`MiniVerilog.Regression.runCases_stops`).
-/

namespace MiniVerilog.Regression

/-- The results up to the first one that did not pass, with it. -/
def upToFailure (results : List CaseResult) : List CaseResult :=
  results.takeWhile (·.passed) ++ (results.dropWhile (·.passed)).take 1

/-- A full run has a result for each case. -/
theorem results_full (cases : List Case) : results false cases = cases.map Case.result := by
  induction cases with
  | nil => rfl
  | cons case cases ih =>
      rw [List.map_cons, ← ih]
      rfl

/-- Stopping at a failure gives the results up to the first one. -/
theorem results_stopping (cases : List Case) :
    results true cases = upToFailure (cases.map Case.result) := by
  induction cases with
  | nil => rfl
  | cons case cases ih =>
      rw [results, List.map_cons, upToFailure, List.takeWhile_cons, List.dropWhile_cons]
      cases passed : case.result.passed with
      | false => rfl
      | true => exact congrArg (case.result :: ·) ih

/-- All results passed if those did that are found up to the first failure. -/
theorem passed_upToFailure (results : List CaseResult) :
    (∀ result ∈ upToFailure results, result.passed = true) ↔
      ∀ result ∈ results, result.passed = true := by
  induction results with
  | nil => exact Iff.rfl
  | cons result results ih =>
      rw [upToFailure, List.takeWhile_cons, List.dropWhile_cons]
      cases passed : result.passed with
      | false =>
          have fails (others : List CaseResult) :
              ¬ ∀ other ∈ result :: others, other.passed = true := fun all =>
            Bool.false_ne_true (passed.symm.trans (all result List.mem_cons_self))
          exact iff_of_false (fails []) (fails results)
      | true =>
          rw [List.forall_mem_cons, ← ih]
          exact List.forall_mem_cons

/-- **A run that stops at the first failure** has the results of the full run up to that failure,
and all of them if there is none. The numbers of both add up, so both succeed or neither does; and a
full run of all cases of a registry counts them all. -/
theorem runCases_stops (cases : List Case) (calls : List Registration) :
    (runCases false cases).results = cases.map Case.result ∧
      (runCases true cases).results = upToFailure (runCases false cases).results ∧
      (∀ failFast, (runCases failFast cases).AddsUp) ∧
      (runCases true cases).isSuccess = (runCases false cases).isSuccess ∧
      ∃ report, (Registry.ofCalls calls).run false .everything = .ok report ∧
        report.tally.total = (Registry.ofCalls calls).size := by
  have full : (runCases false cases).results = cases.map Case.result := results_full cases
  have stops : (runCases true cases).results = upToFailure (runCases false cases).results := by
    rw [full]
    exact results_stopping cases
  have addsUp (failFast : Bool) : (runCases failFast cases).AddsUp :=
    Report.ofResults_addsUp _ 0
  refine ⟨full, stops, addsUp, ?_, _, rfl, ?_⟩
  · rw [Bool.eq_iff_iff, (addsUp true).success, (addsUp false).success, stops,
      passed_upToFailure]
  · have all := (Registry.Holds.new.foldl calls).partitions.length
    change (results false (Registry.ofCalls calls).all).length = _
    rw [results_full, List.length_map]
    exact all

end MiniVerilog.Regression
