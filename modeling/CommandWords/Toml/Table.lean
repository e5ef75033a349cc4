import CommandWords.Toml.Basic

/-!
# Building tables

Keys with several parts and headers go through tables, which come into being on the way if they
are not there. `changeAt` goes down such a path and changes the table at its end; `insert` gives a
key its value, `openTable` begins a table by a header, and `openElement` begins an element of an
array of tables.

No key is given two values. A table between braces is never added to. A dotted key adds to no
table that a header has begun, and a header begins no table that a dotted key or another header has
begun.
-/

namespace CommandWords.Toml

/-- The value of a key. -/
def Entries.get? (entries : Entries) (key : Text) : Option Value := entries.lookup key

/-- Gives a key a value, in the place of its old value or behind all other keys. -/
def Entries.set (entries : Entries) (key : Text) (value : Value) : Entries :=
  match entries with
  | [] => [(key, value)]
  | (k, v) :: rest => if k = key then (key, value) :: rest else (k, v) :: Entries.set rest key value

/-- Whether a path given by a dotted key or by a header may go through a table. -/
def TableKind.admits (isDotted : Bool) : TableKind → Bool
  | .explicit => !isDotted
  | .implied => true
  | .dotted => true
  | .inline => false

/-- The kind of a table that comes into being under way. -/
def TableKind.underWay (isDotted : Bool) : TableKind := if isDotted then .dotted else .implied

/-- Changes the table at the end of a path, given its kind and its entries. A path goes through
the last element of an array of tables. -/
def changeAt (isDotted : Bool) (change : TableKind → Entries → Option Entries) :
    List Text → TableKind → Entries → Option Entries
  | [], kind, entries => change kind entries
  | key :: path, _, entries =>
    match Entries.get? entries key with
    | none =>
      let kind := TableKind.underWay isDotted
      (changeAt isDotted change path kind []).map fun inner =>
        Entries.set entries key (.table kind inner)
    | some (.table kind inner) =>
      if kind.admits isDotted then
        (changeAt isDotted change path kind inner).map fun inner =>
          Entries.set entries key (.table kind inner)
      else none
    | some (.tables items) =>
      match items.getLast? with
      | none => none
      | some inner =>
        (changeAt isDotted change path .explicit inner).map fun inner =>
          Entries.set entries key (.tables (items.dropLast ++ [inner]))
    | some _ => none

/-- Gives the key at the end of a path a value; it must have none, and a path of several keys must
end in a table that dotted keys have begun. -/
def insert (path : List Text) (key : Text) (value : Value) (kind : TableKind) (entries : Entries) :
    Option Entries :=
  let isDotted := !path.isEmpty
  changeAt isDotted
    (fun kind entries =>
      if (kind == .dotted) = isDotted ∧ (Entries.get? entries key).isNone then
        some (Entries.set entries key value)
      else none)
    path kind entries

/-- Begins the table of a header: a new one, or one that headers have gone through. -/
def openTable (path : List Text) (key : Text) (entries : Entries) : Option Entries :=
  changeAt false
    (fun _ entries =>
      match Entries.get? entries key with
      | none => some (Entries.set entries key (.table .explicit []))
      | some (.table .implied inner) => some (Entries.set entries key (.table .explicit inner))
      | some _ => none)
    path .explicit entries

/-- Begins the next element of the array of tables of a header. -/
def openElement (path : List Text) (key : Text) (entries : Entries) : Option Entries :=
  changeAt false
    (fun _ entries =>
      match Entries.get? entries key with
      | none => some (Entries.set entries key (.tables [[]]))
      | some (.tables items) => some (Entries.set entries key (.tables (items ++ [[]])))
      | some _ => none)
    path .explicit entries

end CommandWords.Toml
