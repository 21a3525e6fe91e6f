import MiniVerilog.Toml.Number

/-! # Dates and times of TOML

Only the form of a date is read, and that the day is in the calendar.
-/

namespace MiniVerilog.Toml

/-- Reads a number of a fixed number of digits. -/
def fixedDigits? (count : Nat) (cs : List Char) : Option (Nat × List Char) :=
  let digits := cs.take count
  if digits.length = count ∧ digits.all Char.isDigit then some (natural 10 digits, cs.drop count)
  else none

/-- The days of a month. -/
def daysIn (year month : Nat) : Nat :=
  if month = 2 then
    if year % 4 = 0 ∧ (year % 100 ≠ 0 ∨ year % 400 = 0) then 29 else 28
  else if month = 4 ∨ month = 6 ∨ month = 9 ∨ month = 11 then 30
  else 31

/-- The text after a day of the calendar. -/
def day? (cs : List Char) : Option (List Char) := do
  let (year, rest) ← fixedDigits? 4 cs
  let (month, rest) ← fixedDigits? 2 (← after? "-" rest)
  let (day, rest) ← fixedDigits? 2 (← after? "-" rest)
  if 1 ≤ month ∧ month ≤ 12 ∧ 1 ≤ day ∧ day ≤ daysIn year month then some rest else none

/-- The text after hours and minutes. -/
def minutes? (cs : List Char) : Option (List Char) := do
  let (hour, rest) ← fixedDigits? 2 cs
  let (minute, rest) ← fixedDigits? 2 (← after? ":" rest)
  if hour ≤ 23 ∧ minute ≤ 59 then some rest else none

/-- The text after a time of the day. -/
def time? (cs : List Char) : Option (List Char) := do
  let (second, rest) ← fixedDigits? 2 (← after? ":" (← minutes? cs))
  if 60 < second then none
  match rest with
  | '.' :: fraction =>
    let rest := fraction.dropWhile Char.isDigit
    if rest.length < fraction.length then some rest else none
  | _ => some rest

/-- The text after the offset of a time, if there is one. -/
def offset? (cs : List Char) : Option (List Char) :=
  match cs with
  | c :: rest =>
    if c == 'Z' || c == 'z' then some rest
    else if c == '+' || c == '-' then minutes? rest
    else some cs
  | [] => some []

/-- The text after the time of a date, if there is one. -/
def dateTime? (cs : List Char) : Option (List Char) :=
  match cs with
  | c :: rest =>
    if c == 'T' || c == 't' then do offset? (← time? rest)
    else if c == ' ' then
      match time? rest with
      | some rest => offset? rest
      | none => some cs
    else some cs
  | [] => some []

/-- Reads a date, a time, or both. -/
def date? (cs : List Char) : Option (Toml × List Char) :=
  match day? cs with
  | some rest => (dateTime? rest).map (.date, ·)
  | none => (time? cs).map (.date, ·)

end MiniVerilog.Toml
