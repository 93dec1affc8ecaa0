/-!
# TOML documents

A document is a tree of tables. What may still be added to a table depends on how it came about
(`TableKind`): a header may claim a table that other headers only implied, a dotted key may extend
a table that dotted keys made, and an inline table is complete as written. `Entries.within` walks
down a path under these rules; `Entries.assign`, `Entries.claim` and `Entries.append` do at its
end what a key, a header of a table and a header of an array of tables ask for.
-/

set_option autoImplicit false

namespace Tabula.Toml

inductive TableKind where
  /-- It has a header of its own, or is the document. -/
  | header
  /-- It holds a table that has a header. -/
  | implied
  /-- A dotted key leads through it. -/
  | dotted
  /-- It is written between braces. -/
  | inline
  deriving DecidableEq, Inhabited

inductive Value where
  | string (value : String)
  | integer (value : Int)
  /-- A fractional number; nothing when it is too large for a double. -/
  | float (value : Option Float)
  | boolean (value : Bool)
  /-- A date or a time, as it is written. -/
  | moment (text : String)
  | array (items : List Value)
  /-- The tables under headers of one array, of which there is at least one. -/
  | tables (items : List (List (String × Value)))
  | table (kind : TableKind) (entries : List (String × Value))
  deriving Inhabited

/-- The entries of a table, under distinct keys. -/
abbrev Entries := List (String × Value)

namespace Entries

def get? (key : String) : Entries → Option Value
  | [] => none
  | (k, v) :: rest => if k = key then some v else get? key rest

def set (key : String) (value : Value) : Entries → Entries
  | [] => [(key, value)]
  | (k, v) :: rest => if k = key then (k, value) :: rest else (k, v) :: set key value rest

/-- Changes the table at the end of a path below a table of the given kind, making the tables on
the way. Of an array of tables the last one is meant. A dotted path does not lead into a table
that has a header, and no path into an inline table or a value. -/
def within (dotted : Bool) (change : TableKind → Entries → Option Entries) :
    List String → TableKind → Entries → Option Entries
  | [], kind, entries => change kind entries
  | key :: path, _, entries =>
      match entries.get? key with
      | none =>
          let kind := if dotted then .dotted else .implied
          (within dotted change path kind []).map fun below => entries.set key (.table kind below)
      | some (.table kind below) =>
          if kind = .inline ∨ dotted ∧ kind = .header then none
          else (within dotted change path kind below).map fun below =>
            entries.set key (.table kind below)
      | some (.tables items) =>
          (within dotted change path .header (items.getLast?.getD [])).map fun below =>
            entries.set key (.tables (items.dropLast ++ [below]))
      | some _ => none

/-- Gives a key that has none a value. The last table on a dotted path must be one that dotted
keys made. -/
def assign (path : List String) (key : String) (value : Value) (kind : TableKind)
    (entries : Entries) : Option Entries :=
  let dotted := !path.isEmpty
  within dotted (fun kind entries =>
    if decide (kind = .dotted) != dotted ∨ (entries.get? key).isSome then none
    else some (entries.set key value)) path kind entries

/-- Gives a key of a table a table with a header, which may be one that was only implied. -/
def claim (key : String) (entries : Entries) : Option Entries :=
  match entries.get? key with
  | none => some (entries.set key (.table .header []))
  | some (.table .implied below) => some (entries.set key (.table .header below))
  | some _ => none

/-- Appends a table to the array of tables of a key. -/
def append (key : String) (entries : Entries) : Option Entries :=
  match entries.get? key with
  | none => some (entries.set key (.tables [[]]))
  | some (.tables items) => some (entries.set key (.tables (items ++ [[]])))
  | some _ => none

end Entries

end Tabula.Toml
