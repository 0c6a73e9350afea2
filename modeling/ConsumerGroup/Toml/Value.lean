/-!
# Settings values

The values of a settings document.  Numbers with a fraction and dates have a place in the format but
no use in the settings, so their content is not kept.
-/

namespace ConsumerGroup.Toml

/-- How a table came to be, which decides what may be added to it later. -/
inductive TableForm where
  /-- written in braces: nothing may be added -/
  | inline
  /-- on the way to a table with a header of its own -/
  | implied
  /-- by keys with dots -/
  | dotted
  /-- by a header of its own -/
  | headed
  deriving Repr, DecidableEq

/-- A value of the format. -/
inductive Value where
  /-- a text -/
  | string (text : String)
  /-- a whole number -/
  | integer (value : Int)
  /-- a number with a fraction or an exponent -/
  | float
  /-- true or false -/
  | boolean (value : Bool)
  /-- a date, a time, or both -/
  | datetime
  /-- a list in brackets -/
  | array (items : List Value)
  /-- the tables of one repeated header, in order -/
  | tables (items : List (List (String × Value)))
  /-- a table -/
  | table (form : TableForm) (entries : List (String × Value))
  deriving Repr

/-- The pairs of a table. -/
abbrev Entries := List (String × Value)

namespace Entries

/-- The value under a key. -/
def get? (key : String) : Entries → Option Value
  | [] => none
  | (k, v) :: rest => if k = key then some v else get? key rest

/-- Gives a key that is present another value. -/
def replace (key : String) (value : Value) (entries : Entries) : Entries :=
  entries.map fun e => if e.1 = key then (key, value) else e

/-- Lets `f` change the last table of a list of tables. -/
def changeLast (f : Entries → Option Entries) : List Entries → Option (List Entries)
  | [] => none
  | [last] => (f last).map ([·])
  | first :: rest => (changeLast f rest).map (first :: ·)

/-- Goes down the keys of `path` and lets `f` change the table there, whose form it is told.  Tables
that are missing are made.  With `dotted` the path is the front of a key with dots, which may not
enter a table that has a header; otherwise it is the front of a header.  There is no way into a
value that is no table, nor into a table in braces. -/
def descend (dotted : Bool) (f : TableForm → Entries → Option Entries) :
    List String → TableForm → Entries → Option Entries
  | [], form, entries => f form entries
  | key :: path, _, entries =>
    match get? key entries with
    | none =>
      let form := if dotted then TableForm.dotted else TableForm.implied
      (descend dotted f path form []).map fun below => entries ++ [(key, .table form below)]
    | some (.table form below) =>
      if form = .inline || (dotted && form = .headed) then none
      else (descend dotted f path form below).map fun below =>
        replace key (.table form below) entries
    | some (.tables items) =>
      (changeLast (descend dotted f path .headed) items).map fun items =>
        replace key (.tables items) entries
    | some _ => none

/-- Sets a new key, below the tables that `path` names.  A key with dots may only add to tables that
keys with dots made. -/
def assign (path : List String) (key : String) (value : Value) :
    TableForm → Entries → Option Entries :=
  descend true (fun form entries =>
    if decide (form = .dotted) == path.isEmpty then none
    else if (get? key entries).isSome then none
    else some (entries ++ [(key, value)])) path

end Entries

end ConsumerGroup.Toml
