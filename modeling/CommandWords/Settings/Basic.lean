import CommandWords.Response
import CommandWords.Toml.Reader

/-!
# Settings

Settings say how responses are written and which events are logged. They are read from a TOML
text, in which only three keys matter, and two sets of settings are put together key by key.
-/

namespace CommandWords

/-- Settings, each of which may be left open. -/
structure Settings where
  format : Option Format
  /-- Whether JSON is indented. -/
  pretty : Option Bool
  /-- Which events are logged. -/
  log : Option Text
deriving DecidableEq, Repr

namespace Settings

/-- Settings that leave all open. -/
def empty : Settings := ⟨none, none, none⟩

/-- The format in force. -/
def outputFormat (settings : Settings) : Format := settings.format.getD .json

/-- Whether JSON is indented when written. -/
def isPretty (settings : Settings) : Bool := settings.pretty.getD false

/-- These settings, with those that `other` sets taken from it. -/
def overriddenBy (settings other : Settings) : Settings where
  format := other.format.or settings.format
  pretty := other.pretty.or settings.pretty
  log := other.log.or settings.log

/-- A value without content, which may stand behind the name of a format. -/
def isVoid : Toml.Value → Bool
  | .table _ entries => entries.isEmpty
  | .array items => items.isEmpty
  | _ => false

/-- The format that a value names: as a string, or as the only key of a table. -/
def format? : Toml.Value → Option Format
  | .string name => Format.named? name
  | .table _ [(name, value)] => if isVoid value then Format.named? name else none
  | _ => none

/-- The truth value that a value is. -/
def boolean? : Toml.Value → Option Bool
  | .boolean value => some value
  | _ => none

/-- The text that a value is. -/
def text? : Toml.Value → Option Text
  | .string value => some value
  | _ => none

/-- The setting under a key: left open if the key is not there, refused if its value does not
fit. -/
def setting? {α : Type} (key : Text) (read : Toml.Value → Option α) (entries : Toml.Entries) :
    Option (Option α) :=
  match Toml.Entries.get? entries key with
  | none => some none
  | some value => (read value).map some

/-- The settings in the table of a document. Other keys do not matter. -/
def ofEntries? (entries : Toml.Entries) : Option Settings := do
  let format ← setting? "format".toList format? entries
  let pretty ← setting? "pretty".toList boolean? entries
  let log ← setting? "log".toList text? entries
  return ⟨format, pretty, log⟩

/-- The settings in a TOML text. -/
def parse? (text : Text) : Option Settings := (Toml.read text).bind ofEntries?

end Settings

end CommandWords
