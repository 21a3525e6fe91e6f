/-! # TOML values and tables

A document is a table. While it is read, a table remembers how it came to be,
because that decides whether it may be extended later.
-/

namespace MiniVerilog

/-- How a table came to be. -/
inductive TableOrigin where
  /-- By its own header, or as a value in braces. -/
  | defined
  /-- As a part of the header of another table. -/
  | implied
  /-- As a part of a dotted key. -/
  | dotted
  deriving DecidableEq, Repr

/-- A TOML value. Numbers with a fraction and dates are kept without their value,
which nothing asks for. -/
inductive Toml where
  | string (text : String)
  | integer (value : Int)
  | float
  | boolean (value : Bool)
  | date
  | array (items : List Toml)
  /-- A table written in braces. -/
  | inlineTable (entries : List (String × Toml))
  | table (origin : TableOrigin) (entries : List (String × Toml))
  /-- The tables that headers in double brackets define. -/
  | tables (elements : List (List (String × Toml)))

namespace Toml

/-- Entries of a table. -/
abbrev Entries := List (String × Toml)

/-- Replaces the value of a name, or adds an entry. -/
def put (name : String) (value : Toml) : Entries → Entries
  | [] => [(name, value)]
  | (first, held) :: rest =>
    if first = name then (first, value) :: rest else (first, held) :: put name value rest

/-- Changes the table that the last element of a non-empty list is. -/
def changeLast (change : Entries → Option Entries) : List Entries → Option (List Entries)
  | [] => none
  | [entries] => (change entries).map fun changed => [changed]
  | entries :: rest => (changeLast change rest).map (entries :: ·)

/-- Changes the table at the end of the path of a header. Tables on the way are
implied, and of an array of tables the last one is meant. -/
def changeAt (change : Entries → Option Entries) : List String → Entries → Option Entries
  | [], entries => change entries
  | name :: path, entries =>
    match entries.lookup name with
    | none => (changeAt change path []).map fun inner => put name (.table .implied inner) entries
    | some (.table origin inner) =>
      (changeAt change path inner).map fun inner => put name (.table origin inner) entries
    | some (.tables elements) =>
      (changeLast (changeAt change path) elements).map fun elements =>
        put name (.tables elements) entries
    | some _ => none

/-- Adds a value under the last part of a dotted key. Tables on the way must not
have a header of their own. A value may be added directly to a table whose keys
are being read, and to one that comes from dotted keys. -/
def addKey (name : String) (value : Toml) (isOpen : Bool) : List String → Entries → Option Entries
  | [], entries =>
    if isOpen && (entries.lookup name).isNone then some (entries ++ [(name, value)]) else none
  | part :: path, entries =>
    match entries.lookup part with
    | none =>
      (addKey name value true path []).map fun inner => put part (.table .dotted inner) entries
    | some (.table .dotted inner) =>
      (addKey name value true path inner).map fun inner =>
        put part (.table .dotted inner) entries
    | some (.table .implied inner) =>
      (addKey name value false path inner).map fun inner =>
        put part (.table .implied inner) entries
    | some (.tables elements) =>
      (changeLast (addKey name value false path) elements).map fun elements =>
        put part (.tables elements) entries
    | some _ => none

/-- Defines the table of a header, which may have been implied before. -/
def defineTable (path : List String) (name : String) : Entries → Option Entries :=
  changeAt (fun entries =>
    match entries.lookup name with
    | none => some (put name (.table .defined []) entries)
    | some (.table .implied inner) => some (put name (.table .defined inner) entries)
    | some _ => none) path

/-- Adds an empty table to the array of tables of a header. -/
def addElement (path : List String) (name : String) : Entries → Option Entries :=
  changeAt (fun entries =>
    match entries.lookup name with
    | none => some (put name (.tables [[]]) entries)
    | some (.tables elements) => some (put name (.tables (elements ++ [[]])) entries)
    | some _ => none) path

end Toml

end MiniVerilog
