import CommandWords.Number.Binary64
import CommandWords.Text.Basic

/-!
# TOML values

A document is a table. A table remembers how it came to be, because that decides whether later
lines may add to it.
-/

namespace CommandWords.Toml

/-- How a table came to be. -/
inductive TableKind where
  /-- By a header of its own, or as an element of an array of tables. The document's own table
  counts as such. -/
  | explicit
  /-- By a header that goes through it. -/
  | implied
  /-- By a dotted key that goes through it. -/
  | dotted
  /-- Between braces. -/
  | inline
deriving DecidableEq, Repr

/-- A number with a fraction or an exponent, or one of the special numbers. -/
inductive FloatValue where
  | finite (negative : Bool) (magnitude : Binary64)
  | infinite (negative : Bool)
  | notANumber
deriving DecidableEq, Repr

/-- A day of the calendar. -/
structure Date where
  year : Nat
  month : Nat
  day : Nat
deriving DecidableEq, Repr

/-- A time of the day. -/
structure Time where
  hour : Nat
  minute : Nat
  second : Nat
  /-- The digits of the fraction of the second. -/
  fraction : Text
deriving DecidableEq, Repr

/-- A date, a time, or both, and then maybe the offset from universal time in minutes. -/
inductive Moment where
  | date (date : Date)
  | time (time : Time)
  | dateTime (date : Date) (time : Time) (offset : Option Int)
deriving DecidableEq, Repr

/-- A value. -/
inductive Value where
  | string (value : Text)
  | integer (value : Int)
  | float (value : FloatValue)
  | boolean (value : Bool)
  | moment (value : Moment)
  | array (items : List Value)
  /-- An array of tables, each begun by a header. -/
  | tables (items : List (List (Text × Value)))
  | table (kind : TableKind) (entries : List (Text × Value))
deriving Repr

/-- The keys of a table with their values, in the order of their first appearance. -/
abbrev Entries := List (Text × Value)

end CommandWords.Toml
