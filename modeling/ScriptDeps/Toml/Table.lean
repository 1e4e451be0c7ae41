import ScriptDeps.Toml.Basic

/-! # Adding to TOML tables

    Headers and keys with dots name tables by a path.  Tables on the way are
    made where they are missing; what is complete is never changed. -/

namespace ScriptDeps
namespace Toml

/-- A key: the tables it passes through, and a name. -/
structure Key where
  path : List Text
  name : Text
deriving DecidableEq, Repr

namespace Rows

/-- Changes the rows that `path` leads to.  `dotted` says whether a key or a
    header leads there.  `f` is also told whether dots alone made the table
    that it changes. -/
def descend (dotted : Bool) (f : Bool → Rows → Option Rows) :
    List Text → Bool → Rows → Option Rows
  | [], byDots, rows => f byDots rows
  | k :: path, _, rows =>
      match rows.get? k with
      | none =>
          (descend dotted f path dotted []).map fun inner =>
            rows ++ [(k, .table (if dotted then .dotted else .passed) inner)]
      | some (.table how inner) =>
          -- Braces close a table for good; dots do not open a table with a header.
          if how = .closed || (dotted && how = .named) then none
          else (descend dotted f path (how = .dotted) inner).map fun inner =>
            rows.set k (.table how inner)
      | some (.tables earlier last) =>
          (descend dotted f path false last).map fun last =>
            rows.set k (.tables earlier last)
      | some _ => none

/-- Adds a row where there is none of that name. -/
def add? (name : Text) (v : Value) (rows : Rows) : Option Rows :=
  if (rows.get? name).isSome then none else some (rows ++ [(name, v)])

/-- Adds the row of a key.  A key with dots adds to tables made by dots only. -/
def addKey? (k : Key) (v : Value) (rows : Rows) : Option Rows :=
  rows.descend true
    (fun byDots inner => if !k.path.isEmpty && !byDots then none else inner.add? k.name v)
    k.path false

/-- Adds the table of a header, which must not have had one before. -/
def addHeader? (k : Key) (rows : Rows) : Option Rows :=
  rows.descend false
    (fun _ inner =>
      match inner.get? k.name with
      | none => some (inner ++ [(k.name, .table .named [])])
      | some (.table .passed content) => some (inner.set k.name (.table .named content))
      | some _ => none)
    k.path false

/-- Adds one more table to those of a name. -/
def addElement? (k : Key) (rows : Rows) : Option Rows :=
  rows.descend false
    (fun _ inner =>
      match inner.get? k.name with
      | none => some (inner ++ [(k.name, .tables [] [])])
      | some (.tables earlier last) => some (inner.set k.name (.tables (earlier ++ [last]) []))
      | some _ => none)
    k.path false

end Rows
end Toml
end ScriptDeps
