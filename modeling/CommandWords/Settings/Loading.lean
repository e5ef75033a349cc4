import CommandWords.Settings.Basic

/-!
# Loading settings

Settings come from the user's file and from the file of the project that is worked in; what the
project sets goes before what the user sets. A file that is not there sets nothing, and a file that
cannot be read or holds no settings is an error, the user's file first.
-/

namespace CommandWords

/-- What is found where a file may be. -/
inductive FileState where
  | absent
  /-- Something that cannot be read as a file, and why not. -/
  | unreadable (reason : Text)
  | contents (bytes : ByteArray)

/-- A directory where a file may be. -/
def FileState.directory : FileState := .unreadable "Is a directory (os error 21)".toList

/-- Why bytes that are not UTF-8 cannot be read as text. -/
def encodingReason : Text := "stream did not contain valid UTF-8".toList

/-- The text that bytes encode in UTF-8. -/
def decodeText? (bytes : ByteArray) : Option Text := (String.fromUTF8? bytes).map String.toList

namespace Settings

/-- Why settings could not be loaded. -/
inductive LoadError where
  | unreadable (reason : Text)
  /-- A text that holds no settings. -/
  | malformed (text : Text)
deriving DecidableEq, Repr

/-- The message of the error. `toml` gives the words of the TOML reader about a text. -/
def LoadError.message (toml : Text → Text) : LoadError → Text
  | .unreadable reason => "failed to read config file: ".toList ++ reason
  | .malformed text => "failed to parse TOML: ".toList ++ toml text

/-- The settings in a file, if there is one. -/
def ofFile : FileState → Except LoadError (Option Settings)
  | .absent => .ok none
  | .unreadable reason => .error (.unreadable reason)
  | .contents bytes =>
    match decodeText? bytes with
    | none => .error (.unreadable encodingReason)
    | some text =>
      match parse? text with
      | none => .error (.malformed text)
      | some settings => .ok (some settings)

/-- The settings of the user's file and the project's file together. -/
def load (user project : FileState) : Except LoadError Settings := do
  let userSettings ← ofFile user
  let projectSettings ← ofFile project
  return (userSettings.getD empty).overriddenBy (projectSettings.getD empty)

/-- The path of the user's file: the one named outright, or else the one in the directory for
settings, which is given by an absolute path or lies in the home directory. -/
def userPath? (named directory home : Option String) : Option String :=
  let inDirectory := (directory.filter (·.startsWith "/")).or (home.map (· ++ "/.config"))
  named.or (inDirectory.map (· ++ "/shellwords.toml"))

/-- The path of the project's file in the directory that is worked in. -/
def projectPath : String := ".shellwords.toml"

end Settings

end CommandWords
