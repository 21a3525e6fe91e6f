import MiniVerilog.Decimal.Binary
import MiniVerilog.Json.Basic
import MiniVerilog.Regression.Case

/-! # Regression reports

A report folds the results of cases into counts, for all cases and for each
category. Times are counted in nanoseconds.
-/

namespace MiniVerilog.Regression

/-- The result of a case. A result with a message is a failure. -/
structure CaseResult where
  id : String
  name : String
  category : Category
  priority : Priority
  nanoseconds : Nat := 0
  message : Option String := none
  deriving DecidableEq, Repr

namespace CaseResult

/-- The case holds. -/
def passed (result : CaseResult) : Bool :=
  result.message.isNone

end CaseResult

/-- Numbers of results. -/
structure Tally where
  total : Nat := 0
  passed : Nat := 0
  failed : Nat := 0
  deriving DecidableEq, Repr

namespace Tally

/-- Counts one more result. -/
def count (tally : Tally) (result : CaseResult) : Tally :=
  if result.passed then
    { tally with total := tally.total + 1, passed := tally.passed + 1 }
  else
    { tally with total := tally.total + 1, failed := tally.failed + 1 }

/-- The numbers of all results, of which those that did not pass failed. -/
def ofResults (results : List CaseResult) : Tally :=
  let passed := results.countP (·.passed)
  { total := results.length, passed, failed := results.length - passed }

end Tally

/-- Results in the order they were found, with their counts. -/
structure Report where
  results : List CaseResult
  tally : Tally
  nanoseconds : Nat
  byCategory : List (Category × Tally)
  deriving DecidableEq, Repr

namespace Report

/-- Counts a result for its category, which takes its place among the others with
its first result. -/
def countFor (result : CaseResult) : List (Category × Tally) → List (Category × Tally)
  | [] => [(result.category, Tally.count {} result)]
  | (category, tally) :: rest =>
    if result.category = category then (category, tally.count result) :: rest
    else if result.category.place < category.place then
      (result.category, Tally.count {} result) :: (category, tally) :: rest
    else (category, tally) :: countFor result rest

/-- The counts of every category that has results. -/
def categoryTallies (results : List CaseResult) : List (Category × Tally) :=
  results.foldl (fun tallies result => countFor result tallies) []

/-- The report on results, which took this time together. -/
def ofResults (results : List CaseResult) (nanoseconds : Nat) : Report where
  results := results
  tally := Tally.ofResults results
  nanoseconds := nanoseconds
  byCategory := categoryTallies results

/-- No case failed. -/
def isSuccess (report : Report) : Bool :=
  report.tally.failed == 0

/-- The failures. -/
def failures (report : Report) : List CaseResult :=
  report.results.filter fun result => !result.passed

/-- A time in seconds. Whole seconds and the rest are converted one by one. -/
def seconds (nanoseconds : Nat) : Float :=
  Float.ofNat (nanoseconds / 1000000000) +
    Float.ofNat (nanoseconds % 1000000000) / 1000000000.0

/-- The counts and the time on one line. -/
def summary (report : Report) : String :=
  "test result: " ++ (if report.isSuccess then "ok" else "FAILED") ++ ". " ++
    toString report.tally.passed ++ " passed; " ++ toString report.tally.failed ++
    " failed; finished in " ++ Decimal.fixed 2 (seconds report.nanoseconds) ++ "s"

/-- A time as whole seconds and the rest. -/
def durationJson (nanoseconds : Nat) : Json :=
  .object [("secs", .nat (nanoseconds / 1000000000)), ("nanos", .nat (nanoseconds % 1000000000))]

/-- A result; a message stands only in that of a failure. -/
def resultJson (result : CaseResult) : Json :=
  .object ([("id", .string result.id), ("name", .string result.name),
    ("category", .string result.category.spelling), ("priority", .string result.priority.spelling),
    ("passed", .bool result.passed), ("duration", durationJson result.nanoseconds)] ++
    (result.message.map fun message => ("message", Json.string message)).toList)

/-- The members of an object with counts. -/
def tallyMembers (tally : Tally) : List (String × Json) :=
  [("total", .nat tally.total), ("passed", .nat tally.passed), ("failed", .nat tally.failed)]

/-- The whole report. -/
def json (report : Report) : Json :=
  .object ([("results", .array (report.results.map resultJson))] ++ tallyMembers report.tally ++
    [("duration", durationJson report.nanoseconds),
      ("by_category", .object (report.byCategory.map fun entry =>
        (entry.1.spelling, .object (tallyMembers entry.2))))])

end Report

end MiniVerilog.Regression
