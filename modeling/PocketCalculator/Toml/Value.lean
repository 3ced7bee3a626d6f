import PocketCalculator.Text.Basic

/-! # TOML values and tables

A TOML document is a table from keys to values. A table remembers how it came about, because that
decides what later lines may add to it: headers and dotted keys may extend each other's tables
only in part, and no key is ever defined twice.
-/

namespace PocketCalculator

namespace Toml

inductive Origin
  /-- Between braces; nothing can be added. -/
  | inline
  /-- On the way to the table of a header. -/
  | implied
  /-- On the way of a dotted key. -/
  | dotted
  /-- By a header of its own. -/
  | headed
  deriving DecidableEq, Repr

inductive Value
  | string (t : Text)
  | integer (n : Int)
  | float (x : Float)
  | boolean (b : Bool)
  /-- A date, a time or both, as written. -/
  | moment (t : Text)
  | array (items : List Value)
  | table (origin : Origin) (entries : List (Text × Value))
  /-- The tables of one double header, the newest first. -/
  | tables (items : List (List (Text × Value)))

/-- The entries of a table in the order of definition. -/
abbrev Entries := List (Text × Value)

namespace Entries

/-- The entry of a key is made, replaced or refused by `f`. -/
def alter (key : Text) (f : Option Value → Option Value) : Entries → Option Entries
  | [] => (f none).map fun v => [(key, v)]
  | (k, v) :: rest =>
    if k = key then (f (some v)).map fun w => (k, w) :: rest
    else (alter key f rest).map ((k, v) :: ·)

/-- A new entry; `mayAdd` says whether the table is open for it. -/
def define (mayAdd : Bool) (key : Text) (v : Value) (es : Entries) : Option Entries :=
  if mayAdd then alter key (fun old => if old.isNone then some v else none) es else none

/-- A new entry at the end of a dotted key. The table that gets it must have come about by dotted
keys, unless the key has one part. -/
def assign (key : Text) (v : Value) (mayAdd : Bool) : List Text → Entries → Option Entries
  | [], es => define mayAdd key v es
  | k :: path, es => alter k (fun
      | none => (assign key v true path []).map (.table .dotted ·)
      | some (.table .dotted sub) => (assign key v true path sub).map (.table .dotted ·)
      | some (.table .implied sub) => (assign key v false path sub).map (.table .implied ·)
      | some (.tables (last :: older)) =>
        (assign key v false path last).map fun sub => .tables (sub :: older)
      | _ => none) es

def within (f : Entries → Option Entries) : List Text → Entries → Option Entries
  | [], es => f es
  | k :: path, es => alter k (fun
      | some (.table origin sub) => (within f path sub).map (.table origin ·)
      | some (.tables (last :: older)) =>
        (within f path last).map fun sub => .tables (sub :: older)
      | _ => none) es

/-- A header makes or finds the tables on its path; `f` makes the last one. -/
def openAt (f : Option Value → Option Value) : List Text → Entries → Option Entries
  | [], _ => none
  | [k], es => alter k f es
  | k :: path, es => alter k (fun
      | none => (openAt f path []).map (.table .implied ·)
      | some (.table .inline _) => none
      | some (.table origin sub) => (openAt f path sub).map (.table origin ·)
      | some (.tables (last :: older)) =>
        (openAt f path last).map fun sub => .tables (sub :: older)
      | _ => none) es

/-- A header starts a table that is not there yet, but may have been implied. -/
def openTable : List Text → Entries → Option Entries := openAt fun
  | none => some (.table .headed [])
  | some (.table .implied sub) => some (.table .headed sub)
  | _ => none

/-- A double header adds a table to those of the same double header. -/
def openElement : List Text → Entries → Option Entries := openAt fun
  | none => some (.tables [[]])
  | some (.tables older) => some (.tables ([] :: older))
  | _ => none

end Entries

end Toml

end PocketCalculator
